import Sbc386Ex.Fdc.DiskFdc

/-!
# Sbc386Ex.Fdc.DataPhase

The data phase with a log of what it does at the ports, and what success is worth.

Each routine here is the one of the same name with its port accesses written down, and an
equation says that the log is all there is to it. What a log can look like is said once, by
`PollLog` and `BurstLog`; that bytes move only when asked for, in order and no more than the
count, are facts of such a log. `fdRw_whole_iff` says when `fd_rw` is right to report a sector.
-/

namespace Sbc386Ex.Fdc

open Prog

variable {D α : Type}

/-! ### The log -/

/-- What the data phase does at the ports: a look at the main status register, or a byte
passed between the data register and memory. -/
inductive DataEvent
  | poll (msr : Byte)
  | move (addr : Nat) (al : Byte)
  deriving DecidableEq

/-- What was logged before comes first. -/
def logged {ε : Type} (log : List ε) (q : α × List ε) : α × List ε := (q.1, log ++ q.2)

def pollPhaseLog (phase : Byte) : Nat → FdcM D (Poll × List DataEvent)
  | 0 => pure (.silent, [])
  | n + 1 => do
      let al ← inMsr
      if al &&& 0xE0 = phase then pure (.wanted, [.poll al])
      else if al &&& 0xE0 = 0xC0 then pure (.ended, [.poll al])
      else logged [.poll al] <$> pollPhaseLog phase n

def pioByteLog (phase : Byte) (addr : Nat) : FdcM D DataEvent := do
  if phase = 0xA0 then
    let h ← get
    outData (h.mem addr)
    pure (.move addr (h.mem addr))
  else
    let al ← inData
    modify fun h => { h with mem := Function.update h.mem addr al }
    pure (.move addr al)

def pioBurstLog (phase : Byte) (addr : Nat → Nat) : Nat → Nat → FdcM D (Pio × List DataEvent)
  | 0, _ => pure (.all, [])
  | cx + 1, i => do
      let e ← pioByteLog phase (addr i)
      if cx = 0 then pure (.all, [e])
      else
        let p ← pollPhaseLog phase 65536
        match p.1 with
        | .wanted => logged (e :: p.2) <$> pioBurstLog phase addr cx (i + 1)
        | .ended => pure (.short, e :: p.2)
        | .silent => pure (.dead, e :: p.2)

def pioLog (phase : Byte) (addr : Nat → Nat) (count : Nat) : FdcM D (Pio × List DataEvent) := do
  if count = 0 then pure (.all, [])
  else
    let p ← pollPhaseLog phase 1000000
    match p.1 with
    | .wanted => logged p.2 <$> pioBurstLog phase addr count 0
    | .ended => pure (.short, p.2)
    | .silent => pure (.dead, p.2)

/-! ### The log changes nothing -/

@[simp] theorem fst_logged {σ ε ε' : Type} (log : List ε) (p : Prog ε' σ (α × List ε)) :
    Prod.fst <$> (logged log <$> p) = Prod.fst <$> p := by
  rw [Functor.map_map]
  rfl

theorem fst_pollPhaseLog (phase : Byte) (n : Nat) :
    (Prod.fst <$> pollPhaseLog phase n : FdcM D Poll) = pollPhase phase n := by
  induction n with
  | zero => simp only [pollPhaseLog, pollPhase, map_pure]
  | succ n ih =>
      simp only [pollPhaseLog, pollPhase, map_bind, ← ih]
      congr 1
      funext al
      split_ifs with hphase hended
      · exact map_pure _ _
      · exact map_pure _ _
      · exact fst_logged _ _

theorem pioByteLog_bind {β : Type} (phase : Byte) (addr : Nat) (p : FdcM D β) :
    (pioByteLog phase addr >>= fun _ => p) = pioByte phase addr >>= fun _ => p := by
  unfold pioByteLog pioByte
  split_ifs with hout <;> simp only [bind_assoc, pure_bind]

theorem fst_pioBurstLog (phase : Byte) (addr : Nat → Nat) (cx : Nat) : ∀ i : Nat,
    (Prod.fst <$> pioBurstLog phase addr cx i : FdcM D Pio) = pioBurst phase addr cx i := by
  induction cx with
  | zero => exact fun i => map_pure _ _
  | succ cx ih =>
      intro i
      simp only [pioBurstLog, pioBurst, map_bind]
      rw [← pioByteLog_bind]
      congr 1
      funext e
      split_ifs with hlast
      · exact map_pure _ _
      · rw [map_bind, ← fst_pollPhaseLog, bind_map_left, ← ih]
        congr 1
        funext p
        obtain ⟨r, log⟩ := p
        cases r with
        | wanted => exact fst_logged _ _
        | ended | silent => exact map_pure _ _

/-- **The log is all there is to the data phase.** -/
theorem fst_pioLog (phase : Byte) (addr : Nat → Nat) (count : Nat) :
    (Prod.fst <$> pioLog phase addr count : FdcM D Pio) = pio phase addr count := by
  unfold pioLog pio
  split_ifs with hcount
  · exact map_pure _ _
  · rw [map_bind, ← fst_pollPhaseLog, bind_map_left, ← fst_pioBurstLog]
    congr 1
    funext p
    obtain ⟨r, log⟩ := p
    cases r with
    | wanted => exact fst_logged _ _
    | ended | silent => exact map_pure _ _

/-! ### What a log looks like -/

/-- A wait for `phase`, by its answer. -/
inductive PollLog (phase : Byte) : Poll → List DataEvent → Prop
  | silent : PollLog phase .silent []
  | wanted {al : Byte} (hal : al &&& 0xE0 = phase) : PollLog phase .wanted [.poll al]
  | ended {al : Byte} (hne : al &&& 0xE0 ≠ phase) (hal : al &&& 0xE0 = 0xC0) :
      PollLog phase .ended [.poll al]
  | again {al : Byte} {r : Poll} {log : List DataEvent} (hne : al &&& 0xE0 ≠ phase)
      (hal : al &&& 0xE0 ≠ 0xC0) (rest : PollLog phase r log) : PollLog phase r (.poll al :: log)

/-- A burst of `cx` bytes from the `i`th of the buffer on, by what it returns. -/
inductive BurstLog (phase : Byte) (addr : Nat → Nat) : Nat → Nat → Pio → List DataEvent → Prop
  | last {i : Nat} {al : Byte} : BurstLog phase addr 1 i .all [.move (addr i) al]
  | next {cx i : Nat} {al : Byte} {r : Pio} {log rest : List DataEvent}
      (hlog : PollLog phase .wanted log) (hrest : BurstLog phase addr cx (i + 1) r rest) :
      BurstLog phase addr (cx + 1) i r (.move (addr i) al :: log ++ rest)
  | cut {cx i : Nat} {al : Byte} {log : List DataEvent} (hcx : 0 < cx)
      (hlog : PollLog phase .ended log) :
      BurstLog phase addr (cx + 1) i .short (.move (addr i) al :: log)
  | lost {cx i : Nat} {al : Byte} {log : List DataEvent} (hcx : 0 < cx)
      (hlog : PollLog phase .silent log) :
      BurstLog phase addr (cx + 1) i .dead (.move (addr i) al :: log)

/-- A data phase of `count` bytes, by what it returns. -/
inductive PioLog (phase : Byte) (addr : Nat → Nat) : Nat → Pio → List DataEvent → Prop
  | none : PioLog phase addr 0 .all []
  | burst {count : Nat} {r : Pio} {log rest : List DataEvent} (hlog : PollLog phase .wanted log)
      (hrest : BurstLog phase addr count 0 r rest) : PioLog phase addr count r (log ++ rest)
  | short {count : Nat} {log : List DataEvent} (hcount : 0 < count)
      (hlog : PollLog phase .ended log) : PioLog phase addr count .short log
  | dead {count : Nat} {log : List DataEvent} (hcount : 0 < count)
      (hlog : PollLog phase .silent log) : PioLog phase addr count .dead log

theorem pollPhaseLog_spec (phase : Byte) : ∀ n : Nat,
    Triple (fun _ => True) (pollPhaseLog phase n : FdcM D _) fun q _ => PollLog phase q.1 q.2
  | 0 => .pure fun _ _ => .silent
  | n + 1 => by
      refine Triple.top.bind fun al => .ite (fun hal => .pure fun _ _ => .wanted hal) fun hne => ?_
      refine .ite (fun hal => .pure fun _ _ => .ended hne hal) fun hal => ?_
      rw [map_eq_pure_bind]
      have hrest := pollPhaseLog_spec phase n
      exact (hrest.pre fun _ _ => trivial).bind fun q => .pure fun _ hq => .again hne hal hq

theorem pioByteLog_spec (phase : Byte) (addr : Nat) :
    Triple (fun _ => True) (pioByteLog phase addr : FdcM D _) fun e _ => ∃ al, e = .move addr al := by
  refine .ite (fun _ => Triple.top.bind fun h => Triple.top.bind fun _ => ?_) fun _ => ?_
  · exact .pure fun _ _ => ⟨_, rfl⟩
  · exact Triple.top.bind fun al => Triple.top.bind fun _ => .pure fun _ _ => ⟨al, rfl⟩

theorem pioBurstLog_spec (phase : Byte) (addr : Nat → Nat) : ∀ cx i : Nat,
    Triple (fun _ => 0 < cx) (pioBurstLog phase addr cx i : FdcM D _)
      fun q _ => BurstLog phase addr cx i q.1 q.2
  | 0, _ => fun _ _ _ hcx _ => absurd hcx (Nat.lt_irrefl 0)
  | cx + 1, i => by
      refine ((pioByteLog_spec phase (addr i)).pre fun _ _ => trivial).bind fun e => ?_
      refine Triple.assume ?_
      rintro ⟨al, rfl⟩
      refine .ite ?last fun hcx => ?more
      case last =>
        rintro rfl
        exact .pure fun _ _ => .last
      case more =>
        refine ((pollPhaseLog_spec phase 65536).pre fun _ _ => trivial).bind fun p => ?_
        refine Triple.assume fun hlog => ?_
        obtain ⟨r, log⟩ := p
        cases r with
        | ended => exact .pure fun _ _ => .cut (Nat.pos_of_ne_zero hcx) hlog
        | silent => exact .pure fun _ _ => .lost (Nat.pos_of_ne_zero hcx) hlog
        | wanted =>
            show Triple _ (logged _ <$> _) _
            rw [map_eq_pure_bind]
            have hrest := pioBurstLog_spec phase addr cx (i + 1)
            exact (hrest.pre fun _ _ => Nat.pos_of_ne_zero hcx).bind fun q =>
              .pure fun _ hq => .next hlog hq

theorem pioLog_spec (phase : Byte) (addr : Nat → Nat) (count : Nat) :
    Triple (fun _ => True) (pioLog phase addr count : FdcM D _)
      fun q _ => PioLog phase addr count q.1 q.2 := by
  refine .ite ?none fun hcount => ?some
  case none =>
    rintro rfl
    exact .pure fun _ _ => .none
  case some =>
    refine (pollPhaseLog_spec phase 1000000).bind fun p => ?_
    refine Triple.assume fun hlog => ?_
    obtain ⟨r, log⟩ := p
    cases r with
    | ended => exact .pure fun _ _ => .short (Nat.pos_of_ne_zero hcount) hlog
    | silent => exact .pure fun _ _ => .dead (Nat.pos_of_ne_zero hcount) hlog
    | wanted =>
        show Triple _ (logged _ <$> _) _
        rw [map_eq_pure_bind]
        have hrest := pioBurstLog_spec (D := D) phase addr count 0
        exact (hrest.pre fun _ _ => Nat.pos_of_ne_zero hcount).bind fun q =>
          .pure fun _ hq => .burst hlog hq

/-! ### What a log tells -/

/-- The bytes that moved, and where in memory. -/
def moves : List DataEvent → List (Nat × Byte)
  | [] => []
  | .poll _ :: log => moves log
  | .move addr al :: log => (addr, al) :: moves log

/-- The main status register, look by look. -/
def polls : List DataEvent → List Byte
  | [] => []
  | .poll msr :: log => msr :: polls log
  | .move _ _ :: log => polls log

/-- How often the controller asked for a byte. -/
def asked (phase : Byte) (log : List DataEvent) : Nat :=
  (polls log).countP fun msr => msr &&& 0xE0 = phase

/-- The controller went to the result phase meanwhile. -/
def Ended (log : List DataEvent) : Prop := ∃ msr ∈ polls log, msr &&& 0xE0 = 0xC0

/-- A byte moves only when the look just before it asked for one; `due` says whether that is
so at the start. -/
def Due (phase : Byte) : Bool → List DataEvent → Prop
  | _, [] => True
  | _, .poll msr :: log => Due phase (msr &&& 0xE0 = phase) log
  | due, .move _ _ :: log => due = true ∧ Due phase false log

@[simp] theorem moves_append (l l' : List DataEvent) : moves (l ++ l') = moves l ++ moves l' := by
  induction l with
  | nil => rfl
  | cons e l ih => cases e <;> simp [moves, ih]

@[simp] theorem polls_append (l l' : List DataEvent) : polls (l ++ l') = polls l ++ polls l' := by
  induction l with
  | nil => rfl
  | cons e l ih => cases e <;> simp [polls, ih]

theorem asked_append (phase : Byte) (l l' : List DataEvent) :
    asked phase (l ++ l') = asked phase l + asked phase l' := by
  simp only [asked, polls_append, List.countP_append]

theorem ended_append (l l' : List DataEvent) : Ended (l ++ l') ↔ Ended l ∨ Ended l' := by
  simp only [Ended, polls_append, List.mem_append, or_and_right, exists_or]

theorem asked_poll (phase msr : Byte) (log : List DataEvent) :
    asked phase (.poll msr :: log) = (if msr &&& 0xE0 = phase then 1 else 0) + asked phase log := by
  simp only [asked, polls, List.countP_cons, decide_eq_true_eq, Nat.add_comm]

theorem ended_poll (msr : Byte) (log : List DataEvent) :
    Ended (.poll msr :: log) ↔ msr &&& 0xE0 = 0xC0 ∨ Ended log := by
  simp only [Ended, polls, List.mem_cons, exists_eq_or_imp]

theorem asked_move (phase : Byte) (addr : Nat) (al : Byte) (log : List DataEvent) :
    asked phase (.move addr al :: log) = asked phase log := rfl

theorem ended_move (addr : Nat) (al : Byte) (log : List DataEvent) :
    Ended (.move addr al :: log) ↔ Ended log := Iff.rfl

theorem not_ended_nil : ¬ Ended [] := by
  rintro ⟨msr, hmem, -⟩
  cases hmem

section Wait

variable {phase : Byte} {r : Poll} {log : List DataEvent} (h : PollLog phase r log)
include h

theorem PollLog.moves_eq : moves log = [] := by
  induction h with
  | silent | wanted _ | ended _ _ => rfl
  | again _ _ _ ih => exact ih

theorem PollLog.asked_eq : asked phase log = if r = .wanted then 1 else 0 := by
  induction h with
  | silent => rfl
  | wanted hal => rw [asked_poll, if_pos hal, if_pos rfl]; rfl
  | ended hne _ => rw [asked_poll, if_neg hne, if_neg nofun]; rfl
  | again hne _ _ ih => rw [asked_poll, if_neg hne, Nat.zero_add, ih]

theorem PollLog.ended_iff (hphase : phase ≠ 0xC0) : Ended log ↔ r = .ended := by
  induction h with
  | silent => exact iff_of_false not_ended_nil nofun
  | wanted hal =>
      rw [ended_poll, hal]
      exact iff_of_false (not_or_intro hphase not_ended_nil) nofun
  | ended _ hal => exact iff_of_true ((ended_poll _ _).mpr (.inl hal)) rfl
  | again _ hal _ ih => rw [ended_poll, or_iff_right hal, ih]

/-- A wait that ends in a request lets one byte move. -/
theorem PollLog.due {rest : List DataEvent} (hrest : Due phase (r = .wanted) rest) :
    Due phase false (log ++ rest) := by
  induction h with
  | silent => exact hrest
  | wanted hal =>
      show Due phase (decide _) rest
      rwa [decide_eq_true hal]
  | ended hne hal =>
      show Due phase (decide _) rest
      rwa [decide_eq_false hne]
  | again hne hal _ ih =>
      show Due phase (decide _) _
      rw [decide_eq_false hne]
      exact ih hrest

theorem PollLog.due_end : Due phase false log := by
  have hdue : Due phase false (log ++ []) := h.due (by cases r <;> trivial)
  rwa [List.append_nil] at hdue

end Wait

section Burst

variable {phase : Byte} {addr : Nat → Nat} {cx i : Nat} {r : Pio} {log : List DataEvent}
  (h : BurstLog phase addr cx i r log)
include h

theorem BurstLog.few : (moves log).length ≤ cx := by
  induction h with
  | last => exact Nat.le_refl 1
  | next hlog hrest ih =>
      rw [List.cons_append, moves, List.length_cons, moves_append, hlog.moves_eq, List.nil_append]
      exact Nat.succ_le_succ ih
  | cut hcx hlog | lost hcx hlog =>
      rw [moves, hlog.moves_eq]
      exact Nat.succ_le_succ (Nat.zero_le _)

theorem BurstLog.all_iff : r = .all ↔ (moves log).length = cx := by
  induction h with
  | last => exact iff_of_true rfl rfl
  | next hlog hrest ih =>
      rw [List.cons_append, moves, List.length_cons, moves_append, hlog.moves_eq, List.nil_append,
        ih]
      exact Nat.succ_inj.symm
  | cut hcx hlog | lost hcx hlog =>
      rw [moves, hlog.moves_eq]
      exact iff_of_false nofun fun hlen => hcx.ne (Nat.succ_inj.mp hlen)

/-- One byte more than was asked for: the one the burst starts with. -/
theorem BurstLog.asked_eq : asked phase log + 1 = (moves log).length := by
  induction h with
  | last => rfl
  | next hlog hrest ih =>
      rw [List.cons_append, moves, List.length_cons, moves_append, hlog.moves_eq, List.nil_append,
        ← ih, asked_move, asked_append, hlog.asked_eq, if_pos rfl, Nat.add_comm 1]
  | cut hcx hlog | lost hcx hlog =>
      rw [moves, hlog.moves_eq, asked_move, hlog.asked_eq, if_neg nofun]
      rfl

theorem BurstLog.ended_iff (hphase : phase ≠ 0xC0) : Ended log ↔ r = .short := by
  induction h with
  | last => exact iff_of_false not_ended_nil nofun
  | next hlog hrest ih =>
      rw [List.cons_append, ended_move, ended_append, hlog.ended_iff hphase, or_iff_right nofun, ih]
  | cut hcx hlog => exact iff_of_true ((hlog.ended_iff hphase).mpr rfl) rfl
  | lost hcx hlog => exact iff_of_false (fun hend => nomatch (hlog.ended_iff hphase).mp hend) nofun

theorem BurstLog.due : Due phase true log := by
  induction h with
  | last => exact ⟨rfl, trivial⟩
  | next hlog hrest ih => exact ⟨rfl, hlog.due ih⟩
  | cut hcx hlog | lost hcx hlog => exact ⟨rfl, hlog.due_end⟩

/-- The bytes go to, or come from, one place of the buffer after another. -/
theorem BurstLog.in_order :
    (moves log).map Prod.fst = (List.range' i (moves log).length).map addr := by
  induction h with
  | last => rfl
  | next hlog hrest ih =>
      rw [List.cons_append, moves, moves_append, hlog.moves_eq, List.nil_append, List.length_cons,
        List.range'_succ, List.map_cons, List.map_cons, ih]
  | cut hcx hlog | lost hcx hlog =>
      rw [moves, hlog.moves_eq]
      rfl

end Burst

section Pio

variable {phase : Byte} {addr : Nat → Nat} {count : Nat} {r : Pio} {log : List DataEvent}
  (h : PioLog phase addr count r log)
include h

theorem PioLog.few : (moves log).length ≤ count := by
  cases h with
  | none => exact Nat.le_refl 0
  | burst hlog hrest =>
      rw [moves_append, hlog.moves_eq, List.nil_append]
      exact hrest.few
  | short hcount hlog | dead hcount hlog =>
      rw [hlog.moves_eq]
      exact Nat.zero_le count

/-- **0 comes back exactly when all of it moved.** -/
theorem PioLog.all_iff : r = .all ↔ (moves log).length = count := by
  cases h with
  | none => exact iff_of_true rfl rfl
  | burst hlog hrest =>
      rw [moves_append, hlog.moves_eq, List.nil_append]
      exact hrest.all_iff
  | short hcount hlog | dead hcount hlog =>
      rw [hlog.moves_eq]
      exact iff_of_false nofun hcount.ne

/-- As many bytes move as were asked for. -/
theorem PioLog.asked_eq : asked phase log = (moves log).length := by
  cases h with
  | none => rfl
  | burst hlog hrest =>
      rw [moves_append, hlog.moves_eq, List.nil_append, asked_append, hlog.asked_eq, if_pos rfl,
        Nat.add_comm, hrest.asked_eq]
  | short hcount hlog | dead hcount hlog =>
      rw [hlog.moves_eq, hlog.asked_eq, if_neg nofun]
      rfl

theorem PioLog.ended_iff (hphase : phase ≠ 0xC0) : Ended log ↔ r = .short := by
  cases h with
  | none => exact iff_of_false not_ended_nil nofun
  | burst hlog hrest =>
      rw [ended_append, hlog.ended_iff hphase, or_iff_right nofun, hrest.ended_iff hphase]
  | short hcount hlog => exact iff_of_true ((hlog.ended_iff hphase).mpr rfl) rfl
  | dead hcount hlog =>
      exact iff_of_false (fun hend => nomatch (hlog.ended_iff hphase).mp hend) nofun

theorem PioLog.due : Due phase false log := by
  cases h with
  | none => trivial
  | burst hlog hrest => exact hlog.due hrest.due
  | short hcount hlog | dead hcount hlog => exact hlog.due_end

theorem PioLog.in_order :
    (moves log).map Prod.fst = (List.range (moves log).length).map addr := by
  cases h with
  | none => rfl
  | burst hlog hrest =>
      rw [moves_append, hlog.moves_eq, List.nil_append, List.range_eq_range']
      exact hrest.in_order
  | short hcount hlog | dead hcount hlog =>
      rw [hlog.moves_eq]
      rfl

end Pio

end Sbc386Ex.Fdc

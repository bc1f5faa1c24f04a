import Sbc386Ex.Fdc.Heads

/-!
# Sbc386Ex.Fdc.Handshake

The command and result bytes, as both floppy drivers pass them: the BIOS's and COHERENT's
differ only in how they wait, so each routine here takes the wait as a parameter. A
routine's triple says what it leaves of any lasting fact about the drives, and what a
command that was sent whole has started.
-/

namespace Sbc386Ex.Fdc

open Prog Spindle

variable {D : Type}

/-! ### The routines -/

section Routines

variable (wait : Byte → FdcM D Bool)

/-- `fd_out`: a byte in, when the controller wants one. `false` is the source's -1. -/
def outWith (v : Byte) : FdcM D Bool := do
  if ← wait 0x80 then
    outData v
    pure true
  else pure false

/-- `fd_in` -/
def inWith : FdcM D (Option Byte) := do
  if ← wait 0xC0 then some <$> inData else pure none

/-- Calls of `fd_out` joined by `||`. -/
def sendWith : List Byte → FdcM D Bool
  | [] => pure true
  | v :: vs => do if ← outWith wait v then sendWith vs else pure false

/-- `fd_sense`: ST0 and the present cylinder; 80h comes alone. -/
def senseWith : FdcM D (Option (Byte × Byte)) := do
  if ← outWith wait 0x08 then
    match ← inWith wait with
    | none => pure none
    | some st0 => do
        if st0 = 0x80 then pure (some (0x80, 0))
        else
          match ← inWith wait with
          | none => pure none
          | some pcn => pure (some (st0, pcn))
  else pure none

/-- `fd_specify` -/
def specifyWith : FdcM D Bool := sendWith wait [0x03, 0xDF, 0x03]

/-- The `for` loop of `fd_result`: each byte goes where `store` says, zero in place of one
that does not come. -/
def resultWith (store : Fin 7 → Byte → D → D) : List (Fin 7) → FdcM D Bool
  | [] => pure true
  | i :: rest => do
      match ← inWith wait with
      | none => do
          setVars (store i 0)
          pure false
      | some b => do
          setVars (store i b)
          resultWith store rest

end Routines

/-! ### The data phase

`fdcpio.asm`, and `fdpio.s` after it. -/

/-- How the controller answered a poll of the status register. -/
inductive Poll
  | wanted
  | ended
  | silent
  deriving DecidableEq

/-- What the data phase returns: 0 all moved, 1 the controller ended it early, 2 it stopped
answering. -/
inductive Pio
  | all
  | short
  | dead
  deriving DecidableEq

def pollPhase (phase : Byte) : Nat → FdcM D Poll
  | 0 => pure .silent
  | n + 1 => do
      let al ← inMsr
      if al &&& 0xE0 = phase then pure .wanted
      else if al &&& 0xE0 = 0xC0 then pure .ended
      else pollPhase phase n

def pioByte (phase : Byte) (addr : Nat) : FdcM D Unit := do
  if phase = 0xA0 then
    let h ← get
    outData (h.mem addr)
  else
    let al ← inData
    modify fun h => { h with mem := Function.update h.mem addr al }

/-- The burst: `cx` bytes still to move, the next at `addr i`. -/
def pioBurst (phase : Byte) (addr : Nat → Nat) : Nat → Nat → FdcM D Pio
  | 0, _ => pure .all
  | cx + 1, i => do
      pioByte phase (addr i)
      if cx = 0 then pure .all
      else
        match ← pollPhase phase 65536 with
        | .wanted => pioBurst phase addr cx (i + 1)
        | .ended => pure .short
        | .silent => pure .dead

/-- The first byte is waited for longest. -/
def pio (phase : Byte) (addr : Nat → Nat) (count : Nat) : FdcM D Pio := do
  if count = 0 then pure .all
  else
    match ← pollPhase phase 1000000 with
    | .wanted => pioBurst phase addr count 0
    | .ended => pure .short
    | .silent => pure .dead

/-! ### Assertions -/

section Assertions

variable (V : D → Prop) (T : List Access) (Y : (Fin 4 → Spindle) → Prop)

/-- `V` of the driver's variables, `T` the accesses so far, `Y` of the drives, and how far
the controller is in a command or an answer. -/
structure Holds (command result : List Byte) (busy : Bool) (h : Host D) : Prop where
  vars : V h.vars
  taken : h.card.taken = T
  drives : Y h.card.drive
  command : h.card.command = command
  result : h.card.result = result
  busy : h.card.busy = busy

/-- Between commands. -/
abbrev Rest (h : Host D) : Prop := Holds V T Y [] [] false h

/-- At most `n` bytes of an answer are left to read. -/
def Answering (n : Nat) (h : Host D) : Prop :=
  ∃ result, result.length ≤ n ∧ Holds V T Y [] result false h

/-- A command has just been taken. -/
def Obeyed (bytes : List Byte) (h : Host D) : Prop :=
  ∃ h₀ first, Rest V T Y h₀ ∧ h = { h₀ with card := h₀.card.obey first bytes }

end Assertions

/-- What a wait is relied on for: it lets time pass, and one that gives up finds a
controller that has let go. -/
def Waits (wait : Byte → FdcM D Bool) : Prop :=
  ∀ ⦃V : D → Prop⦄ ⦃T Y cmd res busy⦄, Lasting Y → ∀ want,
    Triple (Holds V T Y cmd res busy) (wait want) fun ok h =>
      bif ok then Holds V T Y cmd res busy h else Rest V T Y h

variable {V V' : D → Prop} {T : List Access} {Y Z : (Fin 4 → Spindle) → Prop}
  {cmd res : List Byte} {busy : Bool} {h : Host D}

theorem Holds.mono (hh : Holds V T Y cmd res busy h) (hV : ∀ v, V v → V' v)
    (hY : ∀ d, Y d → Z d) : Holds V' T Z cmd res busy h :=
  ⟨hV _ hh.vars, hh.taken, hY _ hh.drives, hh.command, hh.result, hh.busy⟩

theorem setVars_spec {f : D → D} (hV : ∀ v, V v → V' (f v)) :
    Triple (Holds V T Y cmd res busy) (setVars f) fun _ => Holds V' T Y cmd res busy :=
  .modify fun _ hh => { hh with vars := hV _ hh.vars }

theorem getVars_spec : Triple (Holds V T Y cmd res busy) getVars fun v h =>
    V v ∧ Holds V T Y cmd res busy h := by
  have hget : Triple (Holds V T Y cmd res busy) (get : FdcM D (Host D)) fun a h =>
      V a.vars ∧ Holds V T Y cmd res busy h := .get fun _ hh => ⟨hh.vars, hh⟩
  exact hget.bind fun a => .pure fun h hh => hh

/-! ### Port accesses -/

section Ports

variable (hY : Lasting Y)
include hY

theorem Holds.pass (hh : Holds V T Y cmd res busy h) (m : Moment) :
    Holds V T Y cmd res busy { h with card := h.card.pass m } :=
  { hh with drives := hY (fun u => Card.pass_drift u) hh.drives }

theorem look_spec : Triple (Holds V T Y cmd res busy) look fun _ => Holds V T Y cmd res busy :=
  .modifyGet fun _ hh => hh.pass hY _

theorem inMsr_spec : Triple (Holds V T Y cmd res busy) inMsr fun _ => Holds V T Y cmd res busy :=
  (look_spec hY).bind fun _ => .pure fun _ hh => hh

theorem readClock_spec :
    Triple (Holds V T Y cmd res busy) readClock fun _ => Holds V T Y cmd res busy :=
  (look_spec hY).bind fun _ => .pure fun _ hh => hh

omit hY in
theorem letGo_spec : Triple (Holds V T Y cmd res busy) letGo fun _ => Rest V T Y :=
  .modify fun _ hh => ⟨hh.vars, hh.taken, hh.drives, rfl, rfl, rfl⟩

/-- A byte of an answer that has bytes left. -/
theorem inData_spec {b : Byte} {rest : List Byte} :
    Triple (Holds V T Y cmd (b :: rest) busy) inData fun a h =>
      a = b ∧ Holds V T Y cmd rest busy h := by
  refine (look_spec hY).bind fun m => .modifyGet fun h hh => ?_
  have hgives : h.card.gives m.data = (b, { h.card with result := rest }) := by
    simp only [Card.gives, hh.result]
  rw [hgives]
  exact ⟨rfl, { hh with result := rfl }⟩

/-- A byte of one that may be over. -/
theorem inData_answering {n : Nat} :
    Triple (Answering V T Y (n + 1)) inData fun _ => Answering V T Y n := by
  refine .exists_pre fun result => .and_pre fun hlen => ?_
  cases result with
  | cons b rest =>
      refine (inData_spec hY).post fun a h hh => ⟨rest, ?_, hh.2⟩
      exact Nat.le_of_succ_le_succ hlen
  | nil =>
      refine (look_spec hY).bind fun m => .modifyGet fun h hh => ⟨[], Nat.zero_le _, ?_⟩
      have hgives : h.card.gives m.data = (m.data, h.card) := by
        simp only [Card.gives, hh.result]
      rw [hgives]
      exact hh

/-- The latch between commands: whatever is written, nothing is under way after it. -/
theorem outLatch_rest (v : Byte) : Triple (Rest V T Y) (outLatch v) fun _ => Rest V T Y := by
  refine (look_spec hY).bind fun m => .modify fun h hh => ?_
  refine ⟨hh.vars, (Card.latched_taken _ _).trans hh.taken,
    hY (fun u => Card.latched_drift _ u) hh.drives, Card.latched_command _ _ hh.command, ?_,
    Card.latched_busy _ _ (.inl hh.busy)⟩
  rcases Card.latched_result_idle m.status v hh.busy with hr | hr
  · exact hr
  · exact hr.trans hh.result

/-- TC, and the latch after it: at most the seven bytes of the result phase are left. -/
theorem outLatch_answering {busy : Bool} (v : Byte) (hend : busy = false ∨ v &&& 0x01 ≠ 0) :
    Triple (fun h => ∃ result, result.length ≤ 7 ∧ Holds V T Y [] result busy h) (outLatch v)
      fun _ => Answering V T Y 7 := by
  refine .exists_pre fun result => .and_pre fun hlen => ?_
  refine (look_spec hY).bind fun m => .modify fun h hh => ?_
  have hbusy : h.card.busy = false ∨ v &&& 0x01 ≠ 0 := by rw [hh.busy]; exact hend
  refine ⟨(h.card.latched m.status v).result, ?_, hh.vars,
    (Card.latched_taken _ _).trans hh.taken, hY (fun u => Card.latched_drift _ u) hh.drives,
    Card.latched_command _ _ hh.command, rfl, Card.latched_busy _ _ hbusy⟩
  rcases Card.latched_result (c := h.card) m.status v with hr | hr
  · exact hr
  · rw [hr, hh.result]; exact hlen

/-! ### The data phase -/

theorem pollPhase_spec (phase : Byte) : ∀ n : Nat,
    Triple (Holds V T Y [] [] true) (pollPhase phase n) fun _ => Holds V T Y [] [] true
  | 0 => .pure fun _ hh => hh
  | n + 1 => (inMsr_spec hY).bind fun _ => .ite (fun _ => .pure fun _ hh => hh) fun _ =>
      .ite (fun _ => .pure fun _ hh => hh) fun _ => pollPhase_spec phase n

/-- In a data phase a byte written is data, and one read is the medium's. -/
theorem pioByte_spec (phase : Byte) (addr : Nat) :
    Triple (Holds V T Y [] [] true) (pioByte phase addr) fun _ => Holds V T Y [] [] true := by
  have hout : ∀ v, Triple (Holds V T Y [] [] true) (outData v) fun _ => Holds V T Y [] [] true := by
    refine fun v => (look_spec hY).bind fun m => .modify fun h hh => ?_
    have htakes : h.card.takes m.first v = h.card := by
      simp only [Card.takes, hh.busy, if_true]
    rw [htakes]
    exact hh
  have hin : Triple (Holds V T Y [] [] true) inData fun _ => Holds V T Y [] [] true := by
    refine (look_spec hY).bind fun m => .modifyGet fun h hh => ?_
    have hgives : h.card.gives m.data = (m.data, h.card) := by
      simp only [Card.gives, hh.result]
    rw [hgives]
    exact hh
  have hget : Triple (Holds V T Y [] [] true) (get : FdcM D (Host D))
      fun _ => Holds V T Y [] [] true := .get fun h hh => hh
  refine .ite (fun _ => hget.bind fun h => hout _) fun _ => hin.bind fun al => ?_
  exact .modify fun h hh => ⟨hh.vars, hh.taken, hh.drives, hh.command, hh.result, hh.busy⟩

theorem pioBurst_spec (phase : Byte) (addr : Nat → Nat) : ∀ cx i : Nat,
    Triple (Holds V T Y [] [] true) (pioBurst phase addr cx i) fun _ => Holds V T Y [] [] true
  | 0, _ => .pure fun h hh => hh
  | cx + 1, i => by
      refine (pioByte_spec hY phase _).bind fun _ => .ite (fun _ => .pure fun _ hh => hh) fun _ => ?_
      refine (pollPhase_spec hY phase _).bind fun a => ?_
      cases a with
      | wanted => exact pioBurst_spec phase addr cx (i + 1)
      | ended | silent => exact .pure fun h hh => hh

/-- The data phase moves bytes and nothing else. -/
theorem pio_spec (phase : Byte) (addr : Nat → Nat) (n : Nat) :
    Triple (Holds V T Y [] [] true) (pio phase addr n) fun _ => Holds V T Y [] [] true := by
  refine .ite (fun _ => .pure fun h hh => hh) fun _ => ?_
  refine (pollPhase_spec hY phase _).bind fun a => ?_
  cases a with
  | wanted => exact pioBurst_spec hY phase addr n 0
  | ended | silent => exact .pure fun h hh => hh

/-! ### Result bytes -/

variable {wait : Byte → FdcM D Bool} (hw : Waits wait)
include hw

theorem inWith_spec {b : Byte} {rest : List Byte} :
    Triple (Holds V T Y [] (b :: rest) false) (inWith wait) fun a h =>
      match a with
      | none => Rest V T Y h
      | some a => a = b ∧ Holds V T Y [] rest false h := by
  refine (hw hY 0xC0).bind fun ok => ?_
  cases ok with
  | false => exact .pure fun h hh => hh
  | true =>
      show Triple (Holds V T Y [] (b :: rest) false) (some <$> inData) _
      rw [map_eq_pure_bind]
      exact (inData_spec hY).bind fun a => .pure fun h hh => hh

theorem inWith_answering {n : Nat} :
    Triple (Answering V T Y (n + 1)) (inWith wait) fun a h =>
      match a with
      | none => Rest V T Y h
      | some _ => Answering V T Y n h := by
  have hwait : Triple (Answering V T Y (n + 1)) (wait 0xC0) fun ok h =>
      bif ok then Answering V T Y (n + 1) h else Rest V T Y h := by
    refine .exists_pre fun result => .and_pre fun hlen => (hw hY 0xC0).post fun ok h hh => ?_
    cases ok with
    | false => exact hh
    | true => exact ⟨result, hlen, hh⟩
  refine hwait.bind fun ok => ?_
  cases ok with
  | false => exact .pure fun h hh => hh
  | true =>
      show Triple (Answering V T Y (n + 1)) (some <$> inData) _
      rw [map_eq_pure_bind]
      exact (inData_answering hY).bind fun a => .pure fun h hh => hh

/-- The result phase ends between commands, however many of its bytes came. -/
theorem resultWith_spec {store : Fin 7 → Byte → D → D} (hV : ∀ i b v, V v → V (store i b v)) :
    ∀ is : List (Fin 7), Triple (Answering V T Y is.length) (resultWith wait store is)
      fun _ => Rest V T Y
  | [] => by
      refine .pure fun h => ?_
      rintro ⟨result, hlen, hh⟩
      obtain rfl := List.eq_nil_of_length_eq_zero (Nat.le_zero.mp hlen)
      exact hh
  | i :: rest => by
      refine (inWith_answering hY hw).bind fun a => ?_
      cases a with
      | none =>
          have hstore : Triple (Rest V T Y) (setVars (store i 0)) fun _ => Rest V T Y :=
            .modify fun h hh => { hh with vars := hV i 0 _ hh.vars }
          exact hstore.bind fun _ => .pure fun _ hh => hh
      | some b =>
          have hstore : Triple (Answering V T Y rest.length) (setVars (store i b))
              fun _ => Answering V T Y rest.length :=
            .modify fun h ⟨result, hlen, hh⟩ => ⟨result, hlen, { hh with vars := hV i b _ hh.vars }⟩
          exact hstore.bind fun _ => resultWith_spec hV rest

/-! ### Command bytes -/

/-- One more byte of a command that is not yet whole. -/
theorem outWith_more {v : Byte}
    (hlen : (cmd ++ [v]).length < (Op.decode ((cmd ++ [v]).getD 0 0)).length) :
    Triple (Holds V T Y cmd [] false) (outWith wait v) fun ok h =>
      bif ok then Holds V T Y (cmd ++ [v]) [] false h else Rest V T Y h := by
  refine (hw hY 0x80).bind fun ok => ?_
  cases ok with
  | false => exact .pure fun h hh => hh
  | true =>
      have hout : Triple (Holds V T Y cmd [] false) (outData v)
          fun _ => Holds V T Y (cmd ++ [v]) [] false := by
        refine (look_spec hY).bind fun m => .modify fun h hh => ?_
        have htakes : h.card.takes m.first v = { h.card with command := cmd ++ [v] } := by
          simp only [Card.takes, hh.busy, hh.command, if_pos hlen, Bool.false_eq_true, if_false]
        rw [htakes]
        exact { hh with command := rfl }
      exact hout.bind fun _ => .pure fun h hh => hh

/-- The last byte of a command. -/
theorem outWith_last {v : Byte}
    (hlen : (cmd ++ [v]).length = (Op.decode ((cmd ++ [v]).getD 0 0)).length) :
    Triple (Holds V T Y cmd [] false) (outWith wait v) fun ok h =>
      bif ok then Obeyed V T Y (cmd ++ [v]) h else Rest V T Y h := by
  refine (hw hY 0x80).bind fun ok => ?_
  cases ok with
  | false => exact .pure fun h hh => hh
  | true =>
      have hout : Triple (Holds V T Y cmd [] false) (outData v)
          fun _ => Obeyed V T Y (cmd ++ [v]) := by
        refine (look_spec hY).bind fun m => .modify fun h hh => ?_
        have htakes : h.card.takes m.first v =
            { h.card with command := [] }.obey m.first (cmd ++ [v]) := by
          simp only [Card.takes, hh.busy, hh.command, Bool.false_eq_true, if_false,
            if_neg (Nat.not_lt.mpr (Nat.le_of_eq hlen.symm))]
        rw [htakes]
        exact ⟨{ h with card := { h.card with command := [] } }, m.first,
          { hh with command := rfl }, rfl⟩
      exact hout.bind fun _ => .pure fun h hh => hh

/-- **A chain of bytes that completes a command starts it, or nothing.** -/
theorem sendWith_spec : ∀ (bs cmd : List Byte), bs ≠ [] →
    (cmd ++ bs).length = (Op.decode ((cmd ++ bs).getD 0 0)).length →
    Triple (Holds V T Y cmd [] false) (sendWith wait bs) fun ok h =>
      bif ok then Obeyed V T Y (cmd ++ bs) h else Rest V T Y h
  | [], _, hne, _ => absurd rfl hne
  | [v], cmd, _, hlen => by
      refine (outWith_last hY hw hlen).bind fun ok => ?_
      cases ok with
      | false => exact .pure fun h hh => hh
      | true => exact .pure fun h hh => hh
  | v :: w :: bs, cmd, _, hlen => by
      have hhead : (cmd ++ v :: w :: bs).getD 0 0 = (cmd ++ [v]).getD 0 0 := by
        cases cmd <;> rfl
      have hmore : (cmd ++ [v]).length < (Op.decode ((cmd ++ [v]).getD 0 0)).length := by
        rw [← hhead, ← hlen]
        simp
      refine (outWith_more hY hw hmore).bind fun ok => ?_
      cases ok with
      | false => exact .pure fun h hh => hh
      | true =>
          have happ : cmd ++ v :: w :: bs = (cmd ++ [v]) ++ (w :: bs) := by simp
          rw [happ] at hlen ⊢
          exact sendWith_spec (w :: bs) (cmd ++ [v]) (List.cons_ne_nil _ _) hlen

/-! ### The commands -/

/-- SPECIFY leaves everything as it was. -/
theorem specifyWith_spec :
    Triple (Rest V T Y) (specifyWith wait) fun _ => Rest V T Y := by
  refine (sendWith_spec hY hw [0x03, 0xDF, 0x03] [] (List.cons_ne_nil _ _) (by decide)).post
    fun ok h hh => ?_
  cases ok with
  | false => exact hh
  | true =>
      obtain ⟨h₀, first, hrest, rfl⟩ := hh
      exact hrest

/-- READ, WRITE or FORMAT of a drive whose head stands still: the access is where the head
stands, and the data phase is on. -/
theorem sendWith_access {bytes : List Byte} {k : Byte} (hne : bytes ≠ [])
    (hlen : bytes.length = (Op.decode (bytes.getD 0 0)).length)
    (hop : Op.decode (bytes.getD 0 0) = .write ∨ Op.decode (bytes.getD 0 0) = .read ∨
      Op.decode (bytes.getD 0 0) = .format)
    (hstill : ∀ d, Y d → (d (unitOf (bytes.getD 1 0))).Still k) :
    Triple (Rest V T Y) (sendWith wait bytes) fun ok h =>
      bif ok then Holds V (T ++ [⟨bytes, k⟩]) Y [] [] true h else Rest V T Y h := by
  refine (sendWith_spec hY hw bytes [] hne hlen).post fun ok h hh => ?_
  cases ok with
  | false => exact hh
  | true =>
      obtain ⟨h₀, first, hrest, rfl⟩ := hh
      have hobey : h₀.card.obey first bytes =
          { h₀.card with
            busy := true
            taken := h₀.card.taken ++
              [⟨bytes, (h₀.card.drive (unitOf (bytes.getD 1 0))).head⟩] } := by
        rcases hop with hop | hop | hop <;> simp only [Card.obey, hop]
      show Holds V (T ++ [⟨bytes, k⟩]) Y [] [] true _
      rw [List.nil_append, hobey, (hstill _ hrest.drives).1, hrest.taken]
      exact ⟨hrest.vars, rfl, hrest.drives, hrest.command, hrest.result, rfl⟩

end Ports

/-! ### Heads under way -/

section Motions

variable {wait : Byte → FdcM D Bool} (hw : Waits wait)
include hw

/-- SEEK or RECALIBRATE of a drive: from then on it goes only there. -/
theorem sendWith_motion {bytes : List Byte} {d : Fin 4} {k : Byte} (hne : bytes ≠ [])
    (hlen : bytes.length = (Op.decode (bytes.getD 0 0)).length)
    (hobey : ∀ (c : Card) first, c.obey first bytes = c.send d k) :
    Triple (Rest V T Faithful) (sendWith wait bytes) fun ok h =>
      bif ok then Rest V T (fun drive => Faithful drive ∧ (drive d).Toward k) h
      else Rest V T Faithful h := by
  refine (sendWith_spec lasting_faithful hw bytes [] hne hlen).post fun ok h hh => ?_
  cases ok with
  | false => exact hh
  | true =>
      obtain ⟨h₀, first, hrest, rfl⟩ := hh
      show Rest V T _ { h₀ with card := h₀.card.obey first bytes }
      rw [hobey]
      exact ⟨hrest.vars, hrest.taken,
        ⟨Card.send_faithful hrest.drives, Card.send_toward d k⟩,
        hrest.command, hrest.result, hrest.busy⟩

/-- RECALIBRATE -/
theorem sendWith_recalibrate {d : Fin 4} {b : Byte} (hb : unitOf b = d) :
    Triple (Rest V T Faithful) (sendWith wait [0x07, b]) fun ok h =>
      bif ok then Rest V T (fun drive => Faithful drive ∧ (drive d).Toward 0) h
      else Rest V T Faithful h := by
  have hlen : ([0x07, b] : List Byte).length = (Op.decode 0x07).length := by
    rw [show Op.decode 0x07 = .recalibrate by decide]
    rfl
  exact sendWith_motion hw (List.cons_ne_nil _ _) hlen fun c first =>
    hb ▸ c.obey_recalibrate first b

/-- SEEK -/
theorem sendWith_seek {d : Fin 4} {b ncn : Byte} (hb : unitOf b = d) :
    Triple (Rest V T Faithful) (sendWith wait [0x0F, b, ncn]) fun ok h =>
      bif ok then Rest V T (fun drive => Faithful drive ∧ (drive d).Toward ncn) h
      else Rest V T Faithful h := by
  have hlen : ([0x0F, b, ncn] : List Byte).length = (Op.decode 0x0F).length := by
    rw [show Op.decode 0x0F = .seek by decide]
    rfl
  exact sendWith_motion hw (List.cons_ne_nil _ _) hlen fun c first =>
    hb ▸ c.obey_seek first b ncn

/-- **SENSE INTERRUPT STATUS.** `Z st0 pcn` is what an answer makes known, and `Y'` what is
left when no answer comes. -/
theorem senseWith_spec {Y' : (Fin 4 → Spindle) → Prop} {Z : Byte → Byte → (Fin 4 → Spindle) → Prop}
    (hY : Lasting Y) (hZ : ∀ st0 pcn, Lasting (Z st0 pcn))
    (hanswer : ∀ (c : Card) first, Y c.drive →
      (c.collect first).result = [0x80] ∧ Z 0x80 0 (c.collect first).drive ∨
        ∃ st0 pcn, (c.collect first).result = [st0, pcn] ∧ st0 ≠ 0x80 ∧
          Z st0 pcn (c.collect first).drive)
    (hfail : ∀ d, Y d → Y' d) (hlost : ∀ st0 pcn d, Z st0 pcn d → Y' d) :
    Triple (Rest V T Y) (senseWith wait) fun r h =>
      match r with
      | none => Rest V T Y' h
      | some (st0, pcn) => Rest V T (Z st0 pcn) h := by
  have hlen : (([] : List Byte) ++ [0x08]).length =
      (Op.decode ((([] : List Byte) ++ [0x08]).getD 0 0)).length := by decide
  have hshape : ∀ h, Obeyed V T Y [0x08] h → Holds V T (Z 0x80 0) [] [0x80] false h ∨
      ∃ st0 pcn, st0 ≠ 0x80 ∧ Holds V T (Z st0 pcn) [] [st0, pcn] false h := by
    rintro _ ⟨h₀, first, hrest, rfl⟩
    have hobey : h₀.card.obey first [0x08] = h₀.card.collect first := rfl
    have htaken := h₀.card.collect_taken first
    have hcommand := h₀.card.collect_command first
    have hbusy := h₀.card.collect_busy first
    rw [hobey]
    rcases hanswer h₀.card first hrest.drives with ⟨hr, hz⟩ | ⟨st0, pcn, hr, hne, hz⟩
    · exact .inl ⟨hrest.vars, htaken.trans hrest.taken, hz, hcommand.trans hrest.command, hr,
        hbusy.trans hrest.busy⟩
    · exact .inr ⟨st0, pcn, hne, hrest.vars, htaken.trans hrest.taken, hz,
        hcommand.trans hrest.command, hr, hbusy.trans hrest.busy⟩
  refine (outWith_last hY hw hlen).bind fun ok => ?_
  cases ok with
  | false => exact .pure fun h hh => Holds.mono hh (fun _ hv => hv) hfail
  | true =>
      refine Triple.pre (.or_pre ?nothing (.exists_pre fun st0 => .exists_pre fun pcn =>
        .and_pre fun hne => ?answer)) fun h hh => hshape h hh
      case nothing =>
        refine (inWith_spec (hZ 0x80 0) hw).bind fun a => ?_
        cases a with
        | none => exact .pure fun h hh => hh.mono (fun _ hv => hv) (hlost 0x80 0)
        | some a =>
            refine .and_pre ?_
            rintro rfl
            exact .pure fun h hh => hh
      case answer =>
        refine (inWith_spec (hZ st0 pcn) hw).bind fun a => ?_
        cases a with
        | none => exact .pure fun h hh => hh.mono (fun _ hv => hv) (hlost st0 pcn)
        | some a =>
            refine .and_pre ?_
            rintro rfl
            show Triple _ (if a = 0x80 then _ else _) _
            rw [if_neg hne]
            refine (inWith_spec (hZ a pcn) hw).bind fun b => ?_
            cases b with
            | none => exact .pure fun h hh => hh.mono (fun _ hv => hv) (hlost a pcn)
            | some b =>
                refine .and_pre ?_
                rintro rfl
                exact .pure fun h hh => hh

/-- Collecting an interrupt nobody asked about. -/
theorem senseWith_rest (hY : Lasting Y) (hf : ∀ d, Y d → Faithful d) :
    Triple (Rest V T Y) (senseWith wait) fun _ => Rest V T Y := by
  have hsense := senseWith_spec (V := V) (T := T) hw hY
    (fun _ _ => hY) (fun c first hc => ?_) (fun _ hd => hd) (fun _ _ _ hd => hd)
  · refine hsense.post fun r h hh => ?_
    cases r with
    | none => exact hh
    | some a => exact hh
  · have hkeep : Y (c.collect first).drive := hY (fun _ => Card.collect_drift _) hc
    rcases c.collect_answer first (hf _ hc) with hr | ⟨st0, pcn, hr, hne, -⟩
    · exact .inl ⟨hr, hkeep⟩
    · exact .inr ⟨st0, pcn, hr, hne, hkeep⟩

/-- An answer for the drive that was sent to `k`, with a normal end and that count, means its
head stands there. -/
theorem senseWith_sent {d : Fin 4} {k : Byte} :
    Triple (Rest V T fun drive => Faithful drive ∧ (drive d).Toward k) (senseWith wait) fun r h =>
      match r with
      | none => Rest V T Faithful h
      | some (st0, pcn) => Rest V T (fun drive =>
          (Faithful drive ∧ (drive d).Toward k) ∧ Tells d k st0 pcn drive) h := by
  have hY : Lasting fun drive => Faithful drive ∧ (drive d).Toward k :=
    lasting_faithful.and (lasting_toward d k)
  refine senseWith_spec hw hY (fun st0 pcn => hY.and (lasting_tells d k st0 pcn)) ?_
    (fun _ hd => hd.1) (fun _ _ _ hd => hd.1.1)
  rintro c first ⟨hf, hto⟩
  have hkeep : Faithful (c.collect first).drive ∧ ((c.collect first).drive d).Toward k :=
    hY (fun _ => Card.collect_drift _) ⟨hf, hto⟩
  rcases c.collect_answer first hf with hr | ⟨st0, pcn, hr, hne, htells⟩
  · exact .inl ⟨hr, hkeep, fun htells => absurd rfl htells.1⟩
  · exact .inr ⟨st0, pcn, hr, hne, hkeep, htells d k hto⟩

end Motions

end Sbc386Ex.Fdc

import Sbc386Ex.Kbd.Vt
import Sbc386Ex.Lib.Trace

/-!
# Sbc386Ex.Kbd.Fifo

The keyboard buffer under its three interrupts and INT 16h, in any order of steps.

An interrupt handler runs with interrupts off, except inside INT 14h, which turns them
on, and inside the INT 1Ch hook, which may: there another handler may come in. INT 16h
runs with interrupts on, and a handler may come in between any two of its instructions.
-/

namespace Sbc386Ex.Kbd

/-- Where a handler has got to. -/
inductive Pc
  /-- `.1` of `int_irq4` -/
  | receive
  /-- `call kbd_stuff` of `int_irq4` -/
  | stuff (al : Byte)
  /-- `.finish` of `vt_in` -/
  | finish
  /-- `int_irq0`, before `vt_tick` -/
  | tick
  /-- `.drop` of `vt_tick` -/
  | drop
  /-- `int_irq1`, before `kbd_scan1` -/
  | scan
  /-- nothing left but the end of interrupt and the way out -/
  | leave
  deriving DecidableEq

/-- A handler that has been entered and not left; `away` while it is in INT 14h or in the
INT 1Ch hook. -/
structure Activation where
  pc : Pc
  away : Bool
  deriving DecidableEq

/-- Where INT 16h has got to, with what it holds in `AX` and `BX`. -/
inductive Consumer
  | idle
  /-- `.1` of `k_read` -/
  | read
  | readAt (bx : Word)
  /-- the `hlt` -/
  | halted
  /-- `.2` of `k_read` -/
  | take (bx : Word)
  | moveOn (ax bx : Word)
  | peek
  | peekAt (bx : Word)
  | peeked (bx : Word)
  deriving DecidableEq

/-- The machine. `inside` is the handlers entered and not left, the innermost first. The
rest are ghosts: the words put into the buffer, those `k_read` came back with, and those
dropped, each in order. -/
structure Sys where
  kbd : Bda
  inside : List Activation
  consumer : Consumer
  queued : List Word
  taken : List Word
  lost : List Word

/-- The machine after `kbd_init`. -/
def Sys.init (ram : Word → Byte) : Sys := ⟨kbdInit ram, [], .idle, [], [], []⟩

/-- What a step finds outside: what the receiver of the UART holds, what `kbd_scan1` makes
of the scan code there is, a call of INT 16h. -/
inductive Input
  | go
  | receiver (rbr : Option Byte)
  | key (ax : Option Word)
  | int16 (ah : Byte)
  deriving DecidableEq

inductive Irq
  | irq0
  | irq1
  | irq4
  deriving DecidableEq

inductive Event
  | interrupt (i : Irq)
  | next (i : Input)
  deriving DecidableEq

namespace Sys

variable (s : Sys)

/-! ### Interrupts -/

/-- Interrupts are on. -/
def enabled : Bool :=
  match s.inside with
  | [] => true
  | a :: _ => a.away

/-- A handler as it is entered; `int_irq0` begins with INT 1Ch. -/
def entry : Irq → Activation
  | .irq0 => ⟨.tick, true⟩
  | .irq1 => ⟨.scan, false⟩
  | .irq4 => ⟨.receive, false⟩

/-- An interrupt is taken; it ends a `hlt`. -/
def enter (i : Irq) : Option Sys :=
  if s.enabled then
    some { s with
      inside := entry i :: s.inside
      consumer := if s.consumer = .halted then .read else s.consumer }
  else none

/-! ### The handlers -/

/-- `kbd_stuff_word`, with the data area at `k` and the handler going on at `pc`, through
INT 14h if the buffer is full. -/
def stuffWord (rest : List Activation) (pc : Pc) (k : Bda) (cx : Word) : Sys :=
  match kbdStuffWord k cx with
  | some k => { s with kbd := k, inside := ⟨pc, false⟩ :: rest, queued := s.queued ++ [cx] }
  | none => { s with kbd := k, inside := ⟨pc, true⟩ :: rest, lost := s.lost ++ [cx] }

/-- The handler goes on at `pc`, with the data area at `k`. -/
def goOn (rest : List Activation) (pc : Pc) (k : Bda) : Sys :=
  { s with kbd := k, inside := ⟨pc, false⟩ :: rest }

/-- A step of `int_irq4` with a character. -/
def received (rest : List Activation) (rbr : Byte) : Option Sys :=
  match receive s.kbd rbr with
  | none => none
  | some (k, .consumed) => some (s.goOn rest .receive k)
  | some (k, .pass al) => some (s.goOn rest (.stuff al) k)
  | some (k, .escape al) => some (s.stuffWord rest (.stuff al) k (kbdWord ASCII_ESC))
  | some (k, .finish none) => some (s.goOn rest .finish k)
  | some (k, .finish (some ax)) => some (s.stuffWord rest .finish k ax)

/-- A step of `vt_tick`. -/
def ticked (rest : List Activation) : Sys :=
  match vtTick s.kbd with
  | (k, .quiet) => s.goOn rest .leave k
  | (k, .drop) => s.goOn rest .drop k
  | (k, .escape) => s.stuffWord rest .drop k (kbdWord ASCII_ESC)

/-- A step of a handler that looks at nothing outside. -/
def proceed (rest : List Activation) : Pc → Option Sys
  | .stuff al => some (s.stuffWord rest .receive s.kbd (kbdWord al))
  | .finish => some (s.goOn rest .receive (vtFinish s.kbd))
  | .tick => some (s.ticked rest)
  | .drop => some (s.goOn rest .leave (vtFinish s.kbd))
  | .leave => some { s with inside := rest }
  | .receive | .scan => none

/-- A step of the innermost handler. -/
def produce (a : Activation) (rest : List Activation) (i : Input) : Option Sys :=
  if a.away then
    if i = .go then some { s with inside := { a with away := false } :: rest } else none
  else
    match i with
    | .go => s.proceed rest a.pc
    | .receiver none => if a.pc = .receive then some (s.goOn rest .leave s.kbd) else none
    | .receiver (some rbr) => if a.pc = .receive then s.received rest rbr else none
    | .key none => if a.pc = .scan then some (s.goOn rest .leave s.kbd) else none
    | .key (some ax) => if a.pc = .scan then some (s.stuffWord rest .leave s.kbd ax) else none
    | .int16 _ => none

/-! ### INT 16h -/

/-- `int_16h`: 10h and 11h behave as 00 and 01; the rest do not touch the buffer. -/
def call (ah : Byte) : Consumer :=
  let al := ah &&& 0x0F
  if al = 0 then .read else if al = 1 then .peek else .idle

/-- The instructions of INT 16h that touch the buffer. -/
def instruction : Consumer → Option Sys
  | .read => some { s with consumer := .readAt s.kbd.bufferHead }
  | .readAt bx => some { s with consumer := if bx ≠ s.kbd.bufferTail then .take bx else .halted }
  | .take bx => some { s with consumer := .moveOn (s.kbd.load bx) bx }
  | .moveOn ax bx =>
      some { s with
        kbd := { s.kbd with bufferHead := kbdNext bx }
        consumer := .idle
        taken := s.taken ++ [ax] }
  | .peek => some { s with consumer := .peekAt s.kbd.bufferHead }
  | .peekAt bx => some { s with consumer := if bx = s.kbd.bufferTail then .idle else .peeked bx }
  | .peeked _ => some { s with consumer := .idle }
  | .idle | .halted => none

/-- A step of INT 16h. -/
def consume (i : Input) : Option Sys :=
  match i with
  | .go => s.instruction s.consumer
  | .int16 ah => if s.consumer = .idle then some { s with consumer := call ah } else none
  | .receiver _ | .key _ => none

/-- A step of the machine. -/
def step (e : Event) : Option Sys :=
  match e, s.inside with
  | .interrupt i, _ => s.enter i
  | .next i, [] => s.consume i
  | .next i, a :: rest => s.produce a rest i

end Sys

def Step (s : Sys) (e : Event) (s' : Sys) : Prop := s.step e = some s'

/-! ### The invariant -/

/-- What INT 16h holds in its registers. -/
def Consumer.Agrees (k : Bda) : Consumer → Prop
  | .readAt bx | .peekAt bx => bx = k.bufferHead
  | .take bx | .peeked bx => bx = k.bufferHead ∧ k.ring.head ≠ k.ring.tail
  | .moveOn ax bx =>
      bx = k.bufferHead ∧ k.ring.head ≠ k.ring.tail ∧ ax = k.ring.slot k.ring.head
  | .idle | .read | .halted | .peek => True

/-- The buffer holds what was put in and not yet taken. -/
structure Fifo (s : Sys) : Prop where
  standing : s.kbd.Standing
  order : s.queued = s.taken ++ s.kbd.ring.contents
  agrees : s.consumer.Agrees s.kbd

theorem fifo_init (ram : Word → Byte) : Fifo (Sys.init ram) :=
  ⟨standing_kbdInit ram, ((kbdInit ram).ring.contents_of_empty rfl).symm, trivial⟩

section Agrees

variable {k k' : Bda} {c : Consumer}

theorem Consumer.Agrees.same (h : c.Agrees k) (hsame : SameBuffer k k') : c.Agrees k' := by
  cases c <;> simp [Consumer.Agrees, hsame.ring, hsame.1] at h ⊢ <;> exact h

/-- A word put in is not put where the head is, unless the ring was empty. -/
theorem Consumer.Agrees.push {cx : Word} (h : c.Agrees k) (hfull : ¬ k.ring.Full)
    (hring : k'.ring = k.ring.push cx) (hhead : k'.bufferHead = k.bufferHead) : c.Agrees k' := by
  have hne : k'.ring.head ≠ k'.ring.tail := by
    rw [hring]
    exact fun heq => hfull heq.symm
  have hslot : k.ring.head ≠ k.ring.tail → k'.ring.slot k'.ring.head = k.ring.slot k.ring.head := by
    intro hsome
    rw [hring]
    exact Function.update_of_ne hsome _ _
  cases c with
  | moveOn ax bx =>
      obtain ⟨rfl, hsome, rfl⟩ := h
      exact ⟨hhead.symm, hne, (hslot hsome).symm⟩
  | take bx => exact ⟨h.1.trans hhead.symm, hne⟩
  | peeked bx => exact ⟨h.1.trans hhead.symm, hne⟩
  | readAt bx => exact Eq.trans h hhead.symm
  | peekAt bx => exact Eq.trans h hhead.symm
  | idle | read | halted | peek => trivial

end Agrees

section Preserved

variable {s s' : Sys} {rest : List Activation}

/-- Nothing but the fields of the translator changes. -/
theorem Fifo.same (h : Fifo s) {k : Bda} (hsame : SameBuffer s.kbd k) : Fifo { s with kbd := k } :=
  ⟨hsame.standing h.standing, by simp [hsame.ring, h.order], h.agrees.same hsame⟩

theorem Fifo.goOn (h : Fifo s) {k : Bda} (hsame : SameBuffer s.kbd k) (pc : Pc) :
    Fifo (s.goOn rest pc k) :=
  ⟨(h.same hsame).standing, (h.same hsame).order, (h.same hsame).agrees⟩

/-- What one step may do. -/
def Lawful (s s' : Sys) : Prop := Fifo s' ∧ (s'.lost ≠ s.lost → s.kbd.ring.Full)

/-- A word goes to the end of the queue, or is dropped by a full ring. -/
theorem lawful_stuffWord (h : Fifo s) {k : Bda} (hsame : SameBuffer s.kbd k) (pc : Pc) (cx : Word) :
    Lawful s (s.stuffWord rest pc k cx) := by
  have hk := h.same hsame
  have hspec := kbdStuffWord_spec (hsame.standing h.standing) cx
  unfold Sys.stuffWord
  cases hstuff : kbdStuffWord k cx with
  | none =>
      rw [hstuff, hsame.ring] at hspec
      exact ⟨⟨hk.standing, hk.order, hk.agrees⟩, fun _ => hspec⟩
  | some k' =>
      rw [hstuff] at hspec
      obtain ⟨hfull, hring, hstand, hhead⟩ := hspec
      refine ⟨⟨hstand, ?_, hk.agrees.push hfull hring hhead⟩, fun hlost => absurd rfl hlost⟩
      show s.queued ++ [cx] = s.taken ++ k'.ring.contents
      rw [hring, RingBuffer.contents_push _ _ hfull, hsame.ring, h.order, List.append_assoc]

theorem lawful_goOn (h : Fifo s) {k : Bda} (hsame : SameBuffer s.kbd k) (pc : Pc) :
    Lawful s (s.goOn rest pc k) :=
  ⟨h.goOn hsame pc, fun hlost => absurd rfl hlost⟩

theorem received_lawful (h : Fifo s) {rbr : Byte} (hstep : s.received rest rbr = some s') :
    Lawful s s' := by
  unfold Sys.received at hstep
  cases hrec : receive s.kbd rbr with
  | none =>
      rw [hrec] at hstep
      cases hstep
  | some q =>
      obtain ⟨k, o⟩ := q
      have hsame := receive_buffer hrec
      rw [hrec] at hstep
      cases o with
      | consumed => cases hstep; exact lawful_goOn h hsame _
      | pass al => cases hstep; exact lawful_goOn h hsame _
      | escape al => cases hstep; exact lawful_stuffWord h hsame _ _
      | finish o =>
          cases o with
          | none => cases hstep; exact lawful_goOn h hsame _
          | some ax => cases hstep; exact lawful_stuffWord h hsame _ _

theorem ticked_lawful (h : Fifo s) : Lawful s (s.ticked rest) := by
  have hsame := vtTick_buffer s.kbd
  unfold Sys.ticked
  split
  · next k ht => rw [ht] at hsame; exact lawful_goOn h hsame _
  · next k ht => rw [ht] at hsame; exact lawful_goOn h hsame _
  · next k ht => rw [ht] at hsame; exact lawful_stuffWord h hsame _ _

theorem proceed_lawful (h : Fifo s) {pc : Pc} (hstep : s.proceed rest pc = some s') :
    Lawful s s' := by
  have hrefl : SameBuffer s.kbd s.kbd := ⟨rfl, rfl, rfl⟩
  cases pc with
  | stuff al => cases hstep; exact lawful_stuffWord h hrefl _ _
  | finish => cases hstep; exact lawful_goOn h (vtFinish_buffer _) _
  | tick => cases hstep; exact ticked_lawful h
  | drop => cases hstep; exact lawful_goOn h (vtFinish_buffer _) _
  | leave =>
      cases hstep
      exact ⟨⟨h.standing, h.order, h.agrees⟩, fun hlost => absurd rfl hlost⟩
  | receive => cases hstep
  | scan => cases hstep

theorem produce_lawful (h : Fifo s) {a : Activation} {i : Input}
    (hstep : s.produce a rest i = some s') : Lawful s s' := by
  have hrefl : SameBuffer s.kbd s.kbd := ⟨rfl, rfl, rfl⟩
  unfold Sys.produce at hstep
  by_cases haway : a.away = true
  · rw [if_pos haway] at hstep
    obtain ⟨-, hs⟩ := Option.ite_none_right_eq_some.mp hstep
    cases hs
    exact ⟨⟨h.standing, h.order, h.agrees⟩, fun hlost => absurd rfl hlost⟩
  rw [if_neg haway] at hstep
  cases i with
  | go => exact proceed_lawful h hstep
  | int16 ah => cases hstep
  | receiver o =>
      cases o with
      | none =>
          obtain ⟨-, hs⟩ := Option.ite_none_right_eq_some.mp hstep
          cases hs
          exact lawful_goOn h hrefl _
      | some rbr => exact received_lawful h (Option.ite_none_right_eq_some.mp hstep).2
  | key o =>
      cases o with
      | none =>
          obtain ⟨-, hs⟩ := Option.ite_none_right_eq_some.mp hstep
          cases hs
          exact lawful_goOn h hrefl _
      | some ax =>
          obtain ⟨-, hs⟩ := Option.ite_none_right_eq_some.mp hstep
          cases hs
          exact lawful_stuffWord h hrefl _ _

/-- The word read is the first of the queue, and leaves it. -/
theorem Fifo.moveOn (h : Fifo s) {ax bx : Word} (hc : s.consumer = .moveOn ax bx) :
    Fifo { s with
      kbd := { s.kbd with bufferHead := kbdNext bx }, consumer := .idle, taken := s.taken ++ [ax] } := by
  have hag := h.agrees
  rw [hc] at hag
  obtain ⟨rfl, hsome, rfl⟩ := hag
  obtain ⟨hstand, hpop⟩ := h.standing.pop
  refine ⟨hstand, ?_, trivial⟩
  simp only
  rw [hpop, h.order, RingBuffer.contents_pop _ hsome, List.append_assoc]
  rfl

/-- Where a call goes, nothing is held in the registers. -/
theorem agrees_call (k : Bda) (ah : Byte) : (Sys.call ah).Agrees k := by
  simp only [Sys.call]
  split_ifs <;> trivial

/-- No step of INT 16h drops a word, and only one moves the head. -/
theorem instruction_lawful (h : Fifo s) (hstep : s.instruction s.consumer = some s') :
    Lawful s s' := by
  have hag := h.agrees
  have hempty := h.standing.head_eq_tail_iff
  have hstay : ∀ c : Consumer, c.Agrees s.kbd → Lawful s { s with consumer := c } :=
    fun c hc => ⟨⟨h.standing, h.order, hc⟩, fun hlost => absurd rfl hlost⟩
  cases hc : s.consumer with
  | idle => rw [hc] at hstep; cases hstep
  | halted => rw [hc] at hstep; cases hstep
  | read => rw [hc] at hstep; cases hstep; exact hstay _ rfl
  | peek => rw [hc] at hstep; cases hstep; exact hstay _ rfl
  | peeked bx => rw [hc] at hstep; cases hstep; exact hstay _ trivial
  | readAt bx =>
      rw [hc] at hstep hag
      cases hstep
      refine hstay _ ?_
      by_cases hne : bx ≠ s.kbd.bufferTail
      · rw [if_pos hne]
        exact ⟨hag, fun heq => hne (Eq.trans hag (hempty.mpr heq))⟩
      · rw [if_neg hne]
        trivial
  | take bx =>
      rw [hc] at hstep hag
      cases hstep
      obtain ⟨rfl, hsome⟩ := hag
      exact hstay _ ⟨rfl, hsome, h.standing.load_head⟩
  | moveOn ax bx =>
      rw [hc] at hstep
      cases hstep
      exact ⟨h.moveOn hc, fun hlost => absurd rfl hlost⟩
  | peekAt bx =>
      rw [hc] at hstep hag
      cases hstep
      refine hstay _ ?_
      by_cases heq : bx = s.kbd.bufferTail
      · rw [if_pos heq]
        trivial
      · rw [if_neg heq]
        exact ⟨hag, fun hsame => heq (Eq.trans hag (hempty.mpr hsame))⟩

theorem consume_lawful (h : Fifo s) {i : Input} (hstep : s.consume i = some s') : Lawful s s' := by
  cases i with
  | go => exact instruction_lawful h hstep
  | int16 ah =>
      obtain ⟨-, hs⟩ := Option.ite_none_right_eq_some.mp hstep
      cases hs
      exact ⟨⟨h.standing, h.order, agrees_call _ _⟩, fun hlost => absurd rfl hlost⟩
  | receiver o => cases hstep
  | key o => cases hstep

/-- **One step.** -/
theorem step_lawful (h : Fifo s) {e : Event} (hstep : Step s e s') : Lawful s s' := by
  unfold Step Sys.step at hstep
  split at hstep
  · next i =>
    unfold Sys.enter at hstep
    split_ifs at hstep
    · cases hstep
      exact ⟨⟨h.standing, h.order, trivial⟩, fun hlost => absurd rfl hlost⟩
    · cases hstep
      exact ⟨⟨h.standing, h.order, h.agrees⟩, fun hlost => absurd rfl hlost⟩
  · exact consume_lawful h hstep
  · exact produce_lawful h hstep

end Preserved

/-! ### Every run -/

/-- INT 16h is in the middle of a peek, and takes its next step. -/
def Peeking (s : Sys) (e : Event) : Prop :=
  s.inside = [] ∧ e = .next .go ∧
    (s.consumer = .peek ∨ ∃ bx, s.consumer = .peekAt bx ∨ s.consumer = .peeked bx)

theorem peeking_alters_nothing {s s' : Sys} {e : Event} (hp : Peeking s e) (hstep : Step s e s') :
    s' = { s with consumer := s'.consumer } := by
  obtain ⟨hin, rfl, hc⟩ := hp
  unfold Step Sys.step at hstep
  rw [hin] at hstep
  have hgo : s.instruction s.consumer = some s' := hstep
  rcases hc with hc | ⟨bx, hc | hc⟩
  · rw [hc] at hgo; cases hgo; rfl
  · rw [hc] at hgo; cases hgo; rfl
  · rw [hc] at hgo; cases hgo; rfl

/-- A key comes in while INT 16h waits for one, and is read. -/
def benchKey : List Event :=
  [.next (.int16 0), .next .go, .next .go, .interrupt .irq4, .next (.receiver (some 0x61)),
   .next .go, .next (.receiver none), .next .go, .next .go, .next .go, .next .go, .next .go]

end Sbc386Ex.Kbd

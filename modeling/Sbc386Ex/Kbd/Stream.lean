import Mathlib.Data.List.TakeWhile
import Sbc386Ex.Kbd.Vt
import Sbc386Ex.Lib.Trace

/-!
# Sbc386Ex.Kbd.Stream

The escape translator over a stream of characters and ticks.

`Place` says what a stream is made of: ordinary characters, control sequences
(`ESC [`, digits and semicolons, one final character; or `ESC O` and one character) and
ESCs that opened nothing. The translator of the source is held to it, outside the places
where `Slips` says it goes wrong.
-/

namespace Sbc386Ex.Kbd

/-- What comes in: a character of the serial console, or a tick. -/
inductive Arrival
  | char (rbr : Byte)
  | tick
  deriving DecidableEq

/-- What is left of a character after `vt_in`, with the words handed to `kbd_stuff_word`. -/
def settle : Bda × VtOut → Bda × List Word
  | (k, .consumed) => (k, [])
  | (k, .pass al) => (k, [kbdWord al])
  | (k, .escape al) => (k, [kbdWord ASCII_ESC, kbdWord al])
  | (k, .finish ax) => (vtFinish k, ax.toList)

/-- What is left of a tick. -/
def settleTick : Bda × TickOut → Bda × List Word
  | (k, .quiet) => (k, [])
  | (k, .drop) => (vtFinish k, [])
  | (k, .escape) => (vtFinish k, [kbdWord ASCII_ESC])

/-- One arrival; nothing where the source goes to `reboot_`. -/
def deliver (k : Bda) : Arrival → Option (Bda × List Word)
  | .char rbr => (receive k rbr).map settle
  | .tick => some (settleTick (vtTick k))

/-! ### What a stream is made of -/

/-- Where a stream stands: what has been opened and not closed, and the ticks after which
it is given up. -/
inductive Place
  | outside
  | escape (left : Nat)
  | csi (sent : List Byte) (left : Nat)
  | ss3 (left : Nat)

/-- What is to be delivered: a character as itself, or the word a control sequence stands
for, if it stands for one. -/
inductive Item
  | key (al : Byte)
  | sequence (ax : Option Word)

def Item.words : Item → List Word
  | .key al => [kbdWord al]
  | .sequence ax => ax.toList

def SEMICOLON : Byte := 0x3B

def isDigit (al : Byte) : Bool := 0x30 ≤ al.toNat && al.toNat ≤ 0x39

/-- The number the digits up to the first semicolon spell. -/
def number (sent : List Byte) : Nat :=
  (sent.takeWhile (· ≠ SEMICOLON)).foldl (fun n al => n * 10 + (al.toNat - 0x30)) 0

/-- The word the tables have for `ESC [`, `sent` and `final`. -/
def csiWord (sent : List Byte) (final : Byte) : Option Word :=
  if final = 0x7E then
    (vtTilde.find? fun p => p.1.toNat = number sent).map fun p => p.2 ++ (0 : Byte)
  else vtLookup vtCsi final

/-- A character. An ESC opens something anew wherever it is not the one character of
`ESC O`. -/
def Place.char (al : Byte) : Place → Place × List Item
  | .outside => if al = ASCII_ESC then (.escape 2, []) else (.outside, [.key al])
  | .escape _ =>
      if al = 0x5B then (.csi [] 2, [])
      else if al = 0x4F then (.ss3 2, [])
      else if al = ASCII_ESC then (.escape 2, [.key ASCII_ESC])
      else (.outside, [.key ASCII_ESC, .key al])
  | .csi sent _ =>
      if isDigit al ∨ al = SEMICOLON then (.csi (sent ++ [al]) 2, [])
      else if al = ASCII_ESC then (.escape 2, [])
      else (.outside, [.sequence (csiWord sent al)])
  | .ss3 _ => (.outside, [.sequence (vtLookup vtSs3 al)])

/-- A tick. An ESC that nothing followed is delivered as itself. -/
def Place.tick : Place → Place × List Item
  | .outside => (.outside, [])
  | .escape left => if left = 1 then (.outside, [.key ASCII_ESC]) else (.escape (left - 1), [])
  | .csi sent left => if left = 1 then (.outside, []) else (.csi sent (left - 1), [])
  | .ss3 left => if left = 1 then (.outside, []) else (.ss3 (left - 1), [])

/-- The characters of the console reset sequence are no data. -/
def Place.next (p : Place) : Arrival → Place × List Item
  | .char rbr => if rbr &&& 0x7F = RESET_KEY then (p, []) else p.char (rbr &&& 0x7F)
  | .tick => p.tick

/-- The words delivered are those of the items, in order: each character once, and for each
sequence its word, if it has one, or nothing. -/
inductive Admits : List Item → List Word → Prop
  | nil : Admits [] []
  | key {al : Byte} {items : List Item} {ws : List Word} :
      Admits items ws → Admits (.key al :: items) (kbdWord al :: ws)
  | word {ax : Option Word} {items : List Item} {ws : List Word} :
      Admits items ws → Admits (.sequence ax :: items) (ax.toList ++ ws)
  | nothing {ax : Option Word} {items : List Item} {ws : List Word} :
      Admits items ws → Admits (.sequence ax :: items) ws

theorem admits_words : ∀ items : List Item, Admits items (items.flatMap Item.words)
  | [] => .nil
  | .key _ :: items => .key (admits_words items)
  | .sequence _ :: items => .word (admits_words items)

/-! ### Where the translator goes wrong -/

/-- The characters it takes for something else: an ESC while one is held, an ESC or a
semicolon after `ESC [`, and the end of a number that does not fit a byte, if what is left
of it is in the table. -/
def Place.Slips (al : Byte) : Place → Prop
  | .outside | .ss3 _ => False
  | .escape _ => al = ASCII_ESC
  | .csi sent _ =>
      al = ASCII_ESC ∨ al = SEMICOLON ∨
        (al = 0x7E ∧ 256 ≤ number sent ∧
          (vtLookup vtTilde (BitVec.ofNat 8 (number sent))).isSome)

/-- The arrival at `p` is one of these. -/
def Place.SlipsAt (p : Place) : Arrival → Prop
  | .char rbr => rbr &&& 0x7F ≠ RESET_KEY ∧ p.Slips (rbr &&& 0x7F)
  | .tick => False

instance (al : Byte) : (p : Place) → Decidable (p.Slips al)
  | .outside | .ss3 _ => instDecidableFalse
  | .escape _ => inferInstanceAs (Decidable (al = ASCII_ESC))
  | .csi sent _ =>
      inferInstanceAs (Decidable (al = ASCII_ESC ∨ al = SEMICOLON ∨
        (al = 0x7E ∧ 256 ≤ number sent ∧
          (vtLookup vtTilde (BitVec.ofNat 8 (number sent))).isSome)))

instance (p : Place) : (a : Arrival) → Decidable (p.SlipsAt a)
  | .char rbr => inferInstanceAs (Decidable (rbr &&& 0x7F ≠ RESET_KEY ∧ p.Slips (rbr &&& 0x7F)))
  | .tick => instDecidableFalse

/-! ### The translator and the stream -/

/-- The state of the translator is that of the stream. -/
def Matches (k : Bda) : Place → Prop
  | .outside => k.vtState = 0
  | .escape left => k.vtState = 1 ∧ k.vtTimer.toNat = left ∧ 0 < left
  | .csi sent left =>
      k.vtState = 2 ∧ k.vtTimer.toNat = left ∧ 0 < left ∧
        (∀ al ∈ sent, isDigit al) ∧ k.vtDigit = BitVec.ofNat 8 (number sent)
  | .ss3 left => k.vtState = 3 ∧ k.vtTimer.toNat = left ∧ 0 < left

/-- Digits are no semicolons. -/
theorem takeWhile_digits {sent : List Byte} (h : ∀ al ∈ sent, isDigit al) :
    sent.takeWhile (· ≠ SEMICOLON) = sent := by
  refine List.takeWhile_eq_self_iff.mpr fun al hal => ?_
  have hd := h al hal
  have hne : al ≠ SEMICOLON := by
    rintro rfl
    revert hd
    decide
  simpa using hne

theorem number_snoc {sent : List Byte} (h : ∀ al ∈ sent, isDigit al) {al : Byte}
    (hal : isDigit al) : number (sent ++ [al]) = number sent * 10 + (al.toNat - 0x30) := by
  have hall : ∀ b ∈ sent ++ [al], isDigit b := by
    intro b hb
    rcases List.mem_append.mp hb with hb | hb
    · exact h b hb
    · rw [List.mem_singleton.mp hb]
      exact hal
  rw [number, takeWhile_digits hall, List.foldl_append, number, takeWhile_digits h]
  rfl

/-- A digit goes into the number, a byte wide. -/
theorem vtDigit_snoc {sent : List Byte} (h : ∀ al ∈ sent, isDigit al) {al : Byte}
    (hal : isDigit al) :
    BitVec.ofNat 8 (number sent) * 10 + (al - 0x30) = BitVec.ofNat 8 (number (sent ++ [al])) := by
  have hlo : 0x30 ≤ al.toNat := by
    simp only [isDigit, Bool.and_eq_true, decide_eq_true_eq] at hal
    exact hal.1
  rw [number_snoc h hal]
  apply BitVec.eq_of_toNat_eq
  simp
  omega

/-- What is left of the number in a byte finds what the number finds, if the number fits or
what is left of it is not in the table. -/
theorem vtTilde_number {n : Nat}
    (h : ¬ (256 ≤ n ∧ (vtLookup vtTilde (BitVec.ofNat 8 n)).isSome)) :
    vtLookup vtTilde (BitVec.ofNat 8 n) =
      (vtTilde.find? fun p => p.1.toNat = n).map fun p => p.2 ++ (0 : Byte) := by
  rcases Nat.lt_or_ge n 256 with hlt | hge
  · have hsame : (fun p : Byte × Byte => decide (p.1 = BitVec.ofNat 8 n)) =
        fun p => decide (p.1.toNat = n) := by
      funext p
      rw [decide_eq_decide, ← BitVec.toNat_inj, BitVec.toNat_ofNat, Nat.mod_eq_of_lt hlt]
    rw [vtLookup, hsame]
  · have hnone : vtLookup vtTilde (BitVec.ofNat 8 n) = none := by
      simpa using fun hsome => h ⟨hge, hsome⟩
    have hbig : vtTilde.find? (fun p => p.1.toNat = n) = none := by
      refine List.find?_eq_none.mpr fun p _ heq => ?_
      have hlt : p.1.toNat < 256 := p.1.isLt
      have hval : p.1.toNat = n := by simpa using heq
      omega
    rw [hnone, hbig]
    rfl

theorem cmp_digit (al : Byte) : (¬ al < 0x30 ∧ ¬ 0x39 < al) ↔ isDigit al = true := by
  simp [isDigit, BitVec.lt_def]

/-! ### What `vt_in` does, state by state -/

/-- The translator with something opened, which a tick later than the next gives up. -/
def Bda.opened (k : Bda) (vtState vtDigit : Byte) : Bda :=
  { k with vtState := vtState, vtDigit := vtDigit, vtTimer := VT_TIMEOUT }

theorem settle_outside {k : Bda} (h : k.vtState = 0) (al : Byte) :
    settle (vtIn k al) =
      if al = ASCII_ESC then (k.opened 1 k.vtDigit, []) else (k, [kbdWord al]) := by
  unfold vtIn
  rw [if_pos h, ite_not]
  split <;> rfl

theorem settle_held {k : Bda} (h : k.vtState = 1) (al : Byte) :
    settle (vtIn k al) =
      if al = 0x5B then (k.opened 2 0, [])
      else if al = 0x4F then (k.opened 3 k.vtDigit, [])
      else (vtFinish k, [kbdWord ASCII_ESC, kbdWord al]) := by
  unfold vtIn
  rw [h, if_neg (by decide), if_neg (by decide), if_neg (by decide)]
  split
  · rfl
  split <;> rfl

theorem settle_csi {k : Bda} (h : k.vtState = 2) (al : Byte) :
    settle (vtIn k al) =
      if isDigit al then (k.opened 2 (k.vtDigit * 10 + (al - 0x30)), [])
      else if al = 0x7E then (vtFinish k, (vtLookup vtTilde k.vtDigit).toList)
      else (vtFinish k, (vtLookup vtCsi al).toList) := by
  unfold vtIn
  rw [h, if_neg (by decide), if_pos rfl, if_congr (cmp_digit al) rfl rfl]
  split
  · simp only [settle, Bda.opened]
  split <;> rfl

theorem settle_ss3 {k : Bda} (h : k.vtState = 3) (al : Byte) :
    settle (vtIn k al) = (vtFinish k, (vtLookup vtSs3 al).toList) := by
  unfold vtIn
  rw [h, if_neg (by decide), if_neg (by decide), if_pos (by decide)]
  rfl

/-- **One character.** Outside the slips the translator goes where the stream goes, and
hands over what there is to be delivered. -/
theorem char_matches {k : Bda} {p : Place} (h : Matches k p) {al : Byte} (hno : ¬ p.Slips al) :
    Matches (settle (vtIn k al)).1 (p.char al).1 ∧
      (settle (vtIn k al)).2 = (p.char al).2.flatMap Item.words := by
  cases p with
  | outside =>
      rw [settle_outside h, Place.char]
      split
      · exact ⟨⟨rfl, rfl, by decide⟩, rfl⟩
      · exact ⟨h, rfl⟩
  | escape left =>
      have hesc : al ≠ ASCII_ESC := hno
      rw [settle_held h.1, Place.char, if_neg hesc]
      split
      · exact ⟨⟨rfl, rfl, by decide, by simp, rfl⟩, rfl⟩
      split
      · exact ⟨⟨rfl, rfl, by decide⟩, rfl⟩
      · exact ⟨rfl, rfl⟩
  | csi sent left =>
      obtain ⟨h2, -, -, hdig, hnum⟩ := h
      have hesc : al ≠ ASCII_ESC := fun heq => hno (.inl heq)
      have hsemi : al ≠ SEMICOLON := fun heq => hno (.inr (.inl heq))
      rw [settle_csi h2, Place.char, if_neg hesc]
      by_cases hal : isDigit al
      · -- one digit more
        have hall : ∀ b ∈ sent ++ [al], isDigit b := by
          simpa [or_imp, forall_and] using ⟨hdig, hal⟩
        rw [if_pos hal, if_pos (.inl hal)]
        refine ⟨⟨rfl, rfl, by decide, hall, ?_⟩, rfl⟩
        rw [← vtDigit_snoc hdig hal, ← hnum]
        rfl
      · -- the final character
        have hfinal : ¬ (isDigit al ∨ al = SEMICOLON) := by simp [hal, hsemi]
        rw [if_neg hal, if_neg hfinal, csiWord]
        split
        · rename_i htilde
          have hfits : ¬ (256 ≤ number sent ∧
              (vtLookup vtTilde (BitVec.ofNat 8 (number sent))).isSome) :=
            fun hlong => hno (.inr (.inr ⟨htilde, hlong⟩))
          rw [hnum, vtTilde_number hfits]
          exact ⟨rfl, (List.append_nil _).symm⟩
        · exact ⟨rfl, (List.append_nil _).symm⟩
  | ss3 left =>
      rw [settle_ss3 h.1]
      exact ⟨rfl, (List.append_nil _).symm⟩

/-- The timer reaches zero when the stream gives up what was opened. -/
theorem vtTimer_ends {t : Byte} {left : Nat} (ht : t.toNat = left) (hleft : 0 < left) :
    t - 1 ≠ 0 ↔ left ≠ 1 := by
  rw [not_iff_not, ← BitVec.toNat_inj]
  simp
  omega

theorem vtTimer_runs {t : Byte} {left : Nat} (ht : t.toNat = left) (hleft : 0 < left) :
    (t - 1).toNat = left - 1 := by
  simp
  omega

/-- A tick with something opened. -/
theorem settleTick_opened {k : Bda} (h : k.vtState ≠ 0) :
    settleTick (vtTick k) =
      if k.vtTimer - 1 ≠ 0 then ({ k with vtTimer := k.vtTimer - 1 }, [])
      else (vtFinish { k with vtTimer := k.vtTimer - 1 },
        if k.vtState ≠ 1 then [] else [kbdWord ASCII_ESC]) := by
  unfold vtTick
  rw [if_neg h]
  dsimp only
  split
  · rfl
  split <;> rfl

/-- **One tick.** -/
theorem tick_matches {k : Bda} {p : Place} (h : Matches k p) :
    Matches (settleTick (vtTick k)).1 p.tick.1 ∧
      (settleTick (vtTick k)).2 = p.tick.2.flatMap Item.words := by
  cases p with
  | outside =>
      have h0 : k.vtState = 0 := h
      simp only [vtTick, if_pos h0]
      exact ⟨h, rfl⟩
  | escape left =>
      obtain ⟨h1, ht, hleft⟩ := h
      rw [settleTick_opened (by rw [h1]; decide), if_congr (vtTimer_ends ht hleft) rfl rfl,
        Place.tick, ite_not]
      split
      · rw [if_neg (not_not_intro h1)]
        exact ⟨rfl, rfl⟩
      · exact ⟨⟨h1, vtTimer_runs ht hleft, by omega⟩, rfl⟩
  | csi sent left =>
      obtain ⟨h2, ht, hleft, hdig, hnum⟩ := h
      rw [settleTick_opened (by rw [h2]; decide), if_congr (vtTimer_ends ht hleft) rfl rfl,
        Place.tick, ite_not]
      split
      · rw [h2, if_pos (by decide)]
        exact ⟨rfl, rfl⟩
      · exact ⟨⟨h2, vtTimer_runs ht hleft, by omega, hdig, hnum⟩, rfl⟩
  | ss3 left =>
      obtain ⟨h3, ht, hleft⟩ := h
      rw [settleTick_opened (by rw [h3]; decide), if_congr (vtTimer_ends ht hleft) rfl rfl,
        Place.tick, ite_not]
      split
      · rw [h3, if_pos (by decide)]
        exact ⟨rfl, rfl⟩
      · exact ⟨⟨h3, vtTimer_runs ht hleft, by omega⟩, rfl⟩

/-- What the translator keeps for the console reset is nothing to the stream. -/
theorem Matches.altInput {k : Bda} {p : Place} (h : Matches k p) (n : Byte) :
    Matches { k with altInput := n } p := by
  cases p <;> exact h

/-- **One arrival.** -/
theorem deliver_matches {k k' : Bda} {p : Place} {a : Arrival} {ws : List Word}
    (h : Matches k p) (hno : ¬ p.SlipsAt a) (hgo : deliver k a = some (k', ws)) :
    Matches k' (p.next a).1 ∧ ws = (p.next a).2.flatMap Item.words := by
  cases a with
  | tick =>
      have heq : settleTick (vtTick k) = (k', ws) := Option.some.inj hgo
      have hm := tick_matches h
      rw [heq] at hm
      exact hm
  | char rbr =>
      simp only [deliver, receive] at hgo
      by_cases hkey : rbr &&& 0x7F = RESET_KEY
      · rw [if_pos hkey] at hgo
        rw [Place.next, if_pos hkey]
        split at hgo
        · cases hgo
          exact ⟨h.altInput _, rfl⟩
        · cases hgo
      · rw [if_neg hkey] at hgo
        have heq : settle (vtIn { k with altInput := 0 } (rbr &&& 0x7F)) = (k', ws) :=
          Option.some.inj hgo
        have hm := char_matches (h.altInput 0) fun hslip => hno ⟨hkey, hslip⟩
        rw [heq] at hm
        rw [Place.next, if_neg hkey]
        exact hm

/-! ### Runs -/

/-- A console that has been listened to: where the stream stands, the items it has had, and
the words handed to `kbd_stuff_word`. -/
structure Heard where
  kbd : Bda
  place : Place
  items : List Item
  words : List Word

/-- After `kbd_init`. -/
def Heard.init (ram : Word → Byte) : Heard := ⟨kbdInit ram, .outside, [], []⟩

def Heard.hear (s : Heard) (a : Arrival) : Option Heard :=
  (deliver s.kbd a).map fun r =>
    ⟨r.1, (s.place.next a).1, s.items ++ (s.place.next a).2, s.words ++ r.2⟩

/-- An arrival. -/
def StreamStep (s : Heard) (a : Arrival) (s' : Heard) : Prop := s.hear a = some s'

/-- An arrival that is none of those the translator takes for something else. -/
def CleanStep (s : Heard) (a : Arrival) (s' : Heard) : Prop :=
  StreamStep s a s' ∧ ¬ s.place.SlipsAt a

/-- The words handed over are exactly those of the items. -/
def Heard.Faithful (s : Heard) : Prop :=
  Matches s.kbd s.place ∧ s.words = s.items.flatMap Item.words

theorem step_faithful {s s' : Heard} {a : Arrival} (h : s.Faithful) (hstep : CleanStep s a s') :
    s'.Faithful := by
  obtain ⟨hgo, hno⟩ := hstep
  obtain ⟨r, hr, rfl⟩ := Option.map_eq_some_iff.mp hgo
  obtain ⟨hm, hws⟩ := deliver_matches h.1 hno hr
  refine ⟨hm, ?_⟩
  simp [hws, h.2]

theorem run_faithful {ram : Word → Byte} {l : List Arrival} {s : Heard}
    (hrun : Trace CleanStep (.init ram) l s) : s.Faithful :=
  hrun.inv ⟨rfl, rfl⟩ step_faithful

/-- **The translator over streams.** In every run without a slip, what is handed to
`kbd_stuff_word` is each ordinary character once and in order, for each control sequence
the word its table has for it or nothing, and each ESC that opened nothing. -/
theorem stream_translated {ram : Word → Byte} {l : List Arrival} {s : Heard}
    (hrun : Trace CleanStep (.init ram) l s) : Admits s.items s.words := by
  rw [(run_faithful hrun).2]
  exact admits_words s.items

/-- The up arrow, a letter and a lone ESC. -/
theorem stream_translated_arrow :
    ∃ s, Trace CleanStep (.init fun _ => 0)
        [.char 0x1B, .char 0x5B, .char 0x41, .char 0x78, .char 0x1B, .tick, .tick] s ∧
      s.words = [0x4800, kbdWord 0x78, kbdWord ASCII_ESC] ∧ Admits s.items s.words := by
  have hrun : Trace CleanStep (.init fun _ => 0)
      [.char 0x1B, .char 0x5B, .char 0x41, .char 0x78, .char 0x1B, .tick, .tick] _ :=
    .cons ⟨rfl, by decide⟩ <| .cons ⟨rfl, by decide⟩ <| .cons ⟨rfl, by decide⟩ <|
      .cons ⟨rfl, by decide⟩ <| .cons ⟨rfl, by decide⟩ <| .cons ⟨rfl, by decide⟩ <|
        .cons ⟨rfl, by decide⟩ .refl
  exact ⟨_, hrun, rfl, stream_translated hrun⟩

/-- No more words than items. -/
theorem Admits.length_le {items : List Item} {ws : List Word} (h : Admits items ws) :
    ws.length ≤ items.length := by
  induction h with
  | nil => simp
  | key _ ih => simp [ih]
  | word _ ih =>
      rename_i ax _ _ _
      cases ax <;> simp <;> omega
  | nothing _ ih =>
      simp
      omega

/-- Control and an arrow, `ESC [ 1 ; 5 C`, one control sequence: the `5` and the `C` come as
keys. -/
theorem modified_arrow_types :
    ∃ s, Trace StreamStep (.init fun _ => 0)
        [.char 0x1B, .char 0x5B, .char 0x31, .char 0x3B, .char 0x35, .char 0x43] s ∧
      s.items = [.sequence (some 0x4D00)] ∧ s.words = [kbdWord 0x35, kbdWord 0x43] ∧
        ¬ Admits s.items s.words := by
  have hrun : Trace StreamStep (.init fun _ => 0)
      [.char 0x1B, .char 0x5B, .char 0x31, .char 0x3B, .char 0x35, .char 0x43] _ :=
    .cons rfl <| .cons rfl <| .cons rfl <| .cons rfl <| .cons rfl <| .cons rfl .refl
  exact ⟨_, hrun, rfl, rfl, fun h => absurd h.length_le (by decide)⟩

end Sbc386Ex.Kbd

/-
# The transports of the proactor servers

The event loop of `asyncio` reads and writes by itself: a transport hands over what it has read,
keeps what is written in a buffer, and sends it when the socket takes it.  `close` stops reading
and leaves it to the loop to send the buffer and then to call `connection_lost`.

`Transport.Ok` holds in every run; `Transport.Frame` says what a step of the loop leaves alone.
-/
import Cocurrency.Io.Clients

namespace Io

/-- The loop's side of a connection.  What is unread has not been handed over to the server, and
what is queued is in the write buffer. -/
structure Transport where
  line : Relay.Line UInt8 UInt8
  /-- The connection is accepted, and `connection_made` has been called. -/
  made : Bool
  /-- The client has sent everything. -/
  ended : Bool
  closing : Bool
  /-- `connection_lost` has been called, with an exception or `None`. -/
  lost : Option (Option SockError)

namespace Transport

/-- A connection that is still to be accepted. -/
def new : Transport := ⟨.opened [], false, false, false, none⟩

/-- `write`. -/
def write (t : Transport) (data : Bytes) : Transport :=
  if t.lost = none then { t with line := { t.line with queued := t.line.queued ++ data } } else t

/-- `close`. -/
def close (t : Transport) : Transport := { t with closing := true }

/-- `k` bytes are handed over. -/
def take (t : Transport) (k : ℕ) : Transport :=
  { t with line :=
    { t.line with
      unread := t.line.unread.drop k
      received := t.line.received ++ t.line.unread.take k } }

/-- The loop goes on reading. -/
def Reads (t : Transport) : Prop := t.made = true ∧ t.closing = false ∧ t.lost = none

instance (t : Transport) : Decidable t.Reads := inferInstanceAs (Decidable (_ ∧ _))

/-- What happens to a connection whatever the server does. -/
inductive Act where
  | sends (data : Bytes)
  | ends
  /-- The socket takes `n` bytes of the write buffer. -/
  | flush (n : ℕ)
  /-- The loop calls `connection_lost(None)`. -/
  | lose
  /-- A read or a write of the loop fails. -/
  | fail (e : SockError)
  deriving DecidableEq

/-- The next step of the client or of the loop. -/
def step (t : Transport) : Act → Option Transport
  | .sends data => if t.ended then none else some { t with line := t.line.offer data }
  | .ends => if t.ended then none else some { t with ended := true }
  | .flush n =>
      if t.lost = none ∧ 0 < n ∧ n ≤ t.line.queued.length then
        some { t with line := t.line.send n }
      else none
  | .lose =>
      if t.lost = none ∧ t.closing ∧ t.line.queued = [] then
        some { t with line := t.line.close, lost := some none }
      else none
  | .fail e =>
      if t.made ∧ t.lost = none then
        some { t with line := t.line.close, closing := true, lost := some (some e) }
      else none

end Transport

/-! ## What holds of a transport -/

namespace Transport

/-- What holds of every transport in every run. -/
structure Ok (t : Transport) : Prop where
  sound : t.line.Sound upperByte
  isOpen : t.line.isOpen = true ↔ t.lost = none
  unmade : t.made = false → t.closing = false ∧ t.lost = none
  closing : t.lost ≠ none → t.closing = true
  /-- Without an error everything is sent before the connection is lost. -/
  drained : t.lost = some none → t.line.sent = upper t.line.received

/-- The connection has not failed. -/
def Clean (t : Transport) : Prop := ∀ e, t.lost ≠ some (some e)

/-- All that the client has sent is received, and there will be no more. -/
def AtEnd (t : Transport) : Prop := t.ended = true ∧ t.line.unread = []

variable {t t' : Transport}

/-- At the start nothing has been sent. -/
theorem Ok.new : Ok new where
  sound := Relay.Line.Sound.opened upperByte []
  isOpen := iff_of_true rfl rfl
  unmade _ := ⟨rfl, rfl⟩
  closing h := absurd rfl h
  drained h := by cases h

/-- To close a transport loses nothing. -/
theorem Ok.close (h : Ok t) (hmade : t.made = true) : Ok t.close where
  sound := h.sound
  isOpen := h.isOpen
  unmade hnot := by
    rw [show t.close.made = t.made from rfl, hmade] at hnot
    cases hnot
  closing _ := rfl
  drained := h.drained

/-- The connection is accepted. -/
theorem Ok.accepted (h : Ok t) : Ok { t with made := true } where
  sound := h.sound
  isOpen := h.isOpen
  unmade hnot := by cases hnot
  closing := h.closing
  drained := h.drained

/-- What is handed over is echoed. -/
theorem take_write (hopen : t.lost = none) (k : ℕ) :
    (t.take k).write (upper (t.line.unread.take k)) =
      { t with line := t.line.receive upperByte k } :=
  if_pos hopen

/-- What is received is taken from what is unread. -/
theorem Ok.receive (h : Ok t) (hopen : t.lost = none) (k : ℕ) :
    Ok { t with line := t.line.receive upperByte k } where
  sound := h.sound.receive k
  isOpen := h.isOpen
  unmade := h.unmade
  closing := h.closing
  drained hlost := by
    rw [show (_ : Transport).lost = t.lost from rfl, hopen] at hlost
    cases hlost

/-- The client and the loop keep it. -/
theorem Ok.step (h : Ok t) {a : Act} (hs : t.step a = some t') : Ok t' := by
  cases a with
  | sends data =>
      rw [Transport.step] at hs
      split at hs
      · cases hs
      · cases hs
        exact ⟨h.sound.offer data, h.isOpen, h.unmade, h.closing, h.drained⟩
  | ends =>
      rw [Transport.step] at hs
      split at hs
      · cases hs
      · cases hs
        exact ⟨h.sound, h.isOpen, h.unmade, h.closing, h.drained⟩
  | flush n =>
      rw [Transport.step] at hs
      split at hs
      · next hok =>
        cases hs
        refine ⟨h.sound.send (h.isOpen.mpr hok.1) n, h.isOpen, h.unmade, h.closing, ?_⟩
        intro hlost
        rw [show (_ : Transport).lost = t.lost from rfl, hok.1] at hlost
        cases hlost
      · cases hs
  | lose =>
      rw [Transport.step] at hs
      split at hs
      · next hok =>
        cases hs
        obtain ⟨hopen, hclosing, hempty⟩ := hok
        refine ⟨h.sound.close, by simp [Relay.Line.close], fun hnot => ?_, fun _ => hclosing,
          fun _ => ?_⟩
        · rw [(h.unmade hnot).1] at hclosing
          cases hclosing
        · have heq := h.sound.queued_eq (h.isOpen.mpr hopen)
          rw [hempty, List.append_nil] at heq
          exact heq
      · cases hs
  | fail e =>
      rw [Transport.step] at hs
      split at hs
      · next hok =>
        cases hs
        refine ⟨h.sound.close, by simp [Relay.Line.close], fun hnot => ?_, fun _ => rfl,
          fun hlost => by cases hlost⟩
        rw [show (_ : Transport).made = t.made from rfl, hok.1] at hnot
        cases hnot
      · cases hs

/-- What the client and the loop leave as it is. -/
structure Frame (t t' : Transport) : Prop where
  made : t'.made = t.made
  atEnd : t.AtEnd → t'.AtEnd
  closing : t.closing = true → t'.closing = true
  closing_eq : t'.Clean → t'.closing = t.closing
  lost : t.lost ≠ none → t'.lost = t.lost
  unread : t.line.unread <+: t'.line.unread
  ended : t.ended = true → t'.ended = true ∧ t'.line.unread = t.line.unread
  queued : t'.line.queued.length ≤ t.line.queued.length

/-- Each step keeps to the frame. -/
theorem Frame.of_step {a : Act} (hs : t.step a = some t') : Frame t t' := by
  cases a with
  | sends data =>
      rw [Transport.step] at hs
      split at hs
      · cases hs
      · next hnot =>
        cases hs
        exact ⟨rfl, fun hend => absurd hend.1 hnot, id, fun _ => rfl, fun _ => rfl,
          List.prefix_append _ _, fun hended => absurd hended hnot,
          Nat.le_refl _⟩
  | ends =>
      rw [Transport.step] at hs
      split at hs
      · cases hs
      · cases hs
        exact ⟨rfl, fun hend => ⟨rfl, hend.2⟩, id, fun _ => rfl, fun _ => rfl, List.prefix_rfl,
          fun _ => ⟨rfl, rfl⟩, Nat.le_refl _⟩
  | flush n =>
      rw [Transport.step] at hs
      split at hs
      · cases hs
        exact ⟨rfl, id, id, fun _ => rfl, fun _ => rfl, List.prefix_rfl,
          fun hended => ⟨hended, rfl⟩, by simp [Relay.Line.send]⟩
      · cases hs
  | lose =>
      rw [Transport.step] at hs
      split at hs
      · next hok =>
        cases hs
        exact ⟨rfl, id, id, fun _ => rfl, fun hlost => absurd hok.1 hlost, List.prefix_rfl,
          fun hended => ⟨hended, rfl⟩, Nat.zero_le _⟩
      · cases hs
  | fail e =>
      rw [Transport.step] at hs
      split at hs
      · next hok =>
        cases hs
        exact ⟨rfl, id, fun _ => rfl, fun hclean => absurd rfl (hclean e),
          fun hlost => absurd hok.2 hlost, List.prefix_rfl, fun hended => ⟨hended, rfl⟩,
          Nat.zero_le _⟩
      · cases hs

/-- A connection that fails has failed for good. -/
theorem Frame.clean (h : Frame t t') (hclean : t'.Clean) : t.Clean := by
  intro e hlost
  have hsame := h.lost (by rw [hlost]; simp)
  rw [hlost] at hsame
  exact hclean e hsame

end Transport

end Io

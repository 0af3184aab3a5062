/-
# What the proactor server with coroutines does for a connection

The steps of the loop and of `_handle_client` on a connection that does not fail.  `halts` : they
come to an end; `returned_of_stuck` : where they do, and the client has sent everything, the
coroutine has returned.
-/
import Cocurrency.Io.ProactorStream
import Cocurrency.Lib.Halting

namespace Io

namespace StreamConn

variable {high low : ℕ} {s s' : StreamConn} {e : Event}

/-- The steps of the loop and of `_handle_client`, on a connection that does not fail. -/
def serves : Act → Bool
  | .engine (.flush _) | .engine .lose | .accept | .start _ | .feed _ | .feedEof | .resume => true
  | _ => false

/-- Such a step. -/
def serveStep (high low : ℕ) (s : StreamConn) (a : Act) : Option (Event × StreamConn) :=
  if serves a then s.step high low a else none

/-- What is still to be done. -/
def toDo (s : StreamConn) : ℕ :=
  3 * s.transport.line.unread.length + s.transport.line.queued.length +
    (s.transport.line.unread.length - s.fed) + s.handler.toDo +
    (if s.transport.made then 0 else 1) + (if s.eof then 0 else 1) +
    if s.transport.lost = none then 1 else 0

/-- Only the coroutine has gone on. -/
theorem toDo_lt_of_handler {s₁ : StreamConn} (hline : s₁.transport.line = s.transport.line)
    (hmade : s₁.transport.made = s.transport.made) (hlost : s₁.transport.lost = s.transport.lost)
    (hfed : s₁.fed = s.fed) (heof : s₁.eof = s.eof) (hlt : s₁.handler.toDo < s.handler.toDo) :
    s₁.toDo < s.toDo := by
  unfold toDo
  rw [hline, hmade, hlost, hfed, heof]
  omega

theorem toDo_finish_lt (hlt : 1 < s.handler.toDo) (id : ℕ) (raised : Option SockError) :
    (s.finish id raised).toDo < s.toDo :=
  toDo_lt_of_handler rfl rfl rfl rfl rfl hlt

theorem toDo_resume_lt (h : Ok low s) (hs : s.resume high = some (e, s')) :
    s'.toDo < s.toDo := by
  rw [StreamConn.resume] at hs
  cases hat : s.handler with
  | reading id =>
      have hnot : ¬ s.handler.Over := by rw [hat]; exact not_false
      have hone : 1 < s.handler.toDo := by simp [hat, Handler.toDo]
      rw [hat] at hs
      dsimp only at hs
      split at hs
      · cases hs
        exact toDo_finish_lt hone _ _
      · next hlost =>
        have hopen : s.transport.lost = none := by
          cases hl : s.transport.lost with
          | none => rfl
          | some lost =>
              cases lost with
              | none => exact absurd hl (h.lost_ne hnot)
              | some e => exact absurd hl (hlost e)
        split at hs
        · next hpos =>
          cases hs
          have hfed := h.fed
          have hsize : 0 < readSize := by decide
          unfold toDo
          rw [write, Transport.take_write hopen]
          simp only [Relay.Line.receive, List.length_drop, List.length_append, List.length_map,
            List.length_take, Handler.toDo, hat]
          omega
        · split at hs
          · cases hs
            exact toDo_finish_lt hone _ _
          · cases hs
  | draining id =>
      have hone : 1 < s.handler.toDo := by simp [hat, Handler.toDo]
      rw [hat] at hs
      dsimp only at hs
      split at hs
      · cases hs
        exact toDo_finish_lt hone _ _
      · cases hs
        exact toDo_finish_lt hone _ _
      · split at hs
        · cases hs
        · cases hs
          exact toDo_lt_of_handler rfl rfl rfl rfl rfl (by simp [hat, Handler.toDo])
  | closing id raised =>
      rw [hat] at hs
      dsimp only at hs
      repeat' split at hs
      all_goals first
        | (cases hs
           exact toDo_lt_of_handler rfl rfl rfl rfl rfl (by simp [hat, Handler.toDo]))
        | cases hs
  | absent | returned _ | raised _ _ =>
      rw [hat] at hs
      cases hs

theorem toDo_lt (h : Ok low s) {a : Act} (hs : s.serveStep high low a = some (e, s')) :
    s'.toDo < s.toDo := by
  rw [serveStep] at hs
  split at hs
  · next hserves =>
    cases a with
    | engine a =>
        rw [StreamConn.step] at hs
        split at hs
        · next t ht =>
          cases hs
          obtain ⟨htr, hfed, heof, hhandler⟩ := resumeWriting_frame { s with transport := t } low
          unfold toDo
          rw [htr, hfed, heof, hhandler]
          cases a with
          | flush n =>
              rw [Transport.step] at ht
              split at ht
              · next hok =>
                cases ht
                simp only [Relay.Line.send, List.length_drop]
                omega
              · cases ht
          | lose =>
              rw [Transport.step] at ht
              split at ht
              · next hok =>
                cases ht
                simp [Relay.Line.close, hok.1, hok.2.2]
              · cases ht
          | _ => cases hserves
        · cases hs
    | accept =>
        rw [StreamConn.step] at hs
        split at hs
        · cases hs
        · next hmade =>
          cases hs
          simp only [toDo, hmade, if_true, if_false, Bool.false_eq_true]
          omega
    | start id =>
        rw [StreamConn.step] at hs
        split at hs
        · next hok =>
          cases hs
          simp only [toDo, hok.2, Handler.toDo]
          omega
        · cases hs
    | feed k =>
        rw [StreamConn.step] at hs
        split at hs
        · next hok =>
          cases hs
          simp only [toDo]
          omega
        · cases hs
    | feedEof =>
        rw [StreamConn.step] at hs
        split at hs
        · next hok =>
          cases hs
          simp [toDo, hok.2.2.2]
        · cases hs
    | resume => exact toDo_resume_lt h hs
  · cases hs

theorem halts (h : Ok low s) (hmarks : low ≤ high) : Halts (serveStep high low) s := by
  apply halts_of_measure (Ok low) toDo _ h
  intro s a e s' h hs
  refine ⟨?_, toDo_lt h hs⟩
  rw [serveStep] at hs
  split at hs
  · exact h.step hmarks hs
  · cases hs

/-- Where neither the loop nor the coroutine goes on, with a connection whose client has sent
everything, the coroutine has returned. -/
theorem returned_of_stuck (h : Ok low s) (hended : s.transport.ended = true)
    (hclean : s.transport.Clean) {next : ℕ}
    (hstuck : ∀ a, serves a = true → (∀ id, a = .start id → id = next) →
      s.step high low a = none) : ∃ id, s.handler = .returned id := by
  have hflush := hstuck (.engine (.flush 1)) rfl (fun _ => Act.noConfusion)
  have hlose := hstuck (.engine .lose) rfl (fun _ => Act.noConfusion)
  have hresume : s.resume high = none := hstuck .resume rfl (fun _ => Act.noConfusion)
  have hlost : ¬ s.handler.Over → s.transport.lost = none := by
    intro hnot
    cases hl : s.transport.lost with
    | none => rfl
    | some lost =>
        cases lost with
        | none => exact absurd hl (h.lost_ne hnot)
        | some e => exact absurd hl (hclean e)
  -- a buffer with bytes in it can be flushed
  have hempty : s.transport.lost = none → s.transport.line.queued = [] := by
    intro hopen
    cases hq : s.transport.line.queued with
    | nil => rfl
    | cons b rest => simp [StreamConn.step, Transport.step, hopen, hq] at hflush
  cases hat : s.handler with
  | absent =>
      exfalso
      cases hmade : s.transport.made with
      | false =>
          have hnone := hstuck .accept rfl (fun _ => Act.noConfusion)
          simp [StreamConn.step, hmade] at hnone
      | true =>
          have hnone := hstuck (.start next) rfl fun id hid => by cases hid; rfl
          simp [StreamConn.step, hmade, hat] at hnone
  | reading id =>
      exfalso
      have hnot : ¬ s.handler.Over := by rw [hat]; exact not_false
      have hopen := hlost hnot
      have hreads : s.transport.Reads := by
        refine ⟨h.made (by rw [hat]; exact Handler.noConfusion), ?_, hopen⟩
        exact Bool.eq_false_iff.mpr fun hc => hnot (h.atEnd hc hclean).1
      rw [StreamConn.resume, hat, hopen] at hresume
      dsimp only at hresume
      split at hresume
      · cases hresume
      · next hfed =>
        split at hresume
        · cases hresume
        · next heof =>
          have hzero : s.fed = 0 := Nat.eq_zero_of_not_pos hfed
          cases hunread : s.transport.line.unread with
          | nil =>
              have hnone := hstuck .feedEof rfl (fun _ => Act.noConfusion)
              simp [StreamConn.step, hreads, hunread, hended, hzero, heof] at hnone
          | cons b rest =>
              have hnone := hstuck (.feed 1) rfl (fun _ => Act.noConfusion)
              simp [StreamConn.step, hreads, hunread, hzero] at hnone
  | draining id =>
      exfalso
      have hopen := hlost (by rw [hat]; exact not_false)
      cases hp : s.paused with
      | true =>
          have hpos := h.paused hp
          rw [hempty hopen] at hpos
          exact Nat.not_lt_zero _ hpos
      | false => simp [StreamConn.resume, hat, hopen, hp] at hresume
  | closing id raised =>
      exfalso
      have hnone := h.closing id raised hat hclean
      subst hnone
      cases hl : s.transport.lost with
      | none =>
          have hclosing : s.transport.closing = true := h.closed (by rw [hat]; trivial)
          simp [StreamConn.step, Transport.step, hl, hclosing, hempty hl] at hlose
      | some lost =>
          cases lost with
          | none => simp [StreamConn.resume, hat, hl] at hresume
          | some e => exact absurd hl (hclean e)
  | returned id => exact ⟨id, rfl⟩
  | raised id e => exact absurd hclean (h.raised id e hat)

end StreamConn

end Io

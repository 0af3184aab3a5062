/-
# A connection of the proactor server with coroutines (`proactor_server.py`, variant B)

`_handle_client`, a coroutine over a stream of bytes that have been read already: `reader.read`,
`writer.write` and `writer.drain`, and at the end `writer.close` and `writer.wait_closed`.  One step
is what the client does, what the loop does with the socket, or the next piece of the coroutine's
code.

`Ok` relates the place of the coroutine to the state of the transport, `Bounded` is what `drain`
is for.
-/
import Cocurrency.Io.Transport

namespace Io

/-- Where the coroutine of a connection is; `id` is its `client_id`. -/
inductive Handler where
  | absent
  /-- in `await reader.read(4096)` -/
  | reading (id : ℕ)
  /-- in `await writer.drain()` -/
  | draining (id : ℕ)
  /-- in `await writer.wait_closed()`, with the exception that has left the `try` statement -/
  | closing (id : ℕ) (raised : Option SockError)
  | returned (id : ℕ)
  | raised (id : ℕ) (e : SockError)
  deriving DecidableEq

/-- A connection of `ProactorCoroutineServer`: of the bytes that are unread, `fed` are in the buffer
of the reader; `writer.drain()` waits while writing is paused. -/
structure StreamConn where
  transport : Transport
  fed : ℕ
  eof : Bool
  paused : Bool
  handler : Handler

namespace StreamConn

/-- What the client, the loop and the coroutine do. -/
inductive Act where
  | engine (a : Transport.Act)
  | accept
  /-- The task of `_handle_client` starts, with the next number. -/
  | start (id : ℕ)
  /-- A read of `k` bytes is complete, and fed to the reader. -/
  | feed (k : ℕ)
  | feedEof
  /-- The coroutine goes on. -/
  | resume
  deriving DecidableEq

/-- What a step shows. -/
inductive Event where
  | engine (a : Transport.Act)
  | accepted
  | started (id : ℕ)
  | fed (k : ℕ)
  | fedEof
  /-- `read` has returned, and the response is written. -/
  | wrote (data : Bytes)
  | drained
  /-- `writer.close()`, after the end of the stream or an exception. -/
  | closes
  | returned
  | raised (e : SockError)
  deriving DecidableEq

/-- A connection before it is accepted. -/
def new : StreamConn := ⟨.new, 0, false, false, .absent⟩

/-- The number of bytes that `read` asks for. -/
def readSize : ℕ := 4096

/-- The `finally` block, up to `wait_closed`; `except` catches resets and broken pipes. -/
def finish (s : StreamConn) (id : ℕ) (e : Option SockError) : StreamConn :=
  { s with
    transport := s.transport.close
    handler := .closing id (e.filter fun e => !e.endsSend) }

/-- `writer.write`; writing is paused above the mark `high`. -/
def write (high : ℕ) (s : StreamConn) (data : Bytes) : StreamConn :=
  let t := s.transport.write data
  { s with transport := t, paused := s.paused || decide (high < t.line.queued.length) }

/-- The next piece of `_handle_client`. -/
def resume (high : ℕ) (s : StreamConn) : Option (Event × StreamConn) :=
  match s.handler with
  | .reading id =>
      match s.transport.lost with
      | some (some e) => some (.closes, s.finish id (some e))
      | _ =>
          if 0 < s.fed then
            let k := min readSize s.fed
            let data := s.transport.line.unread.take k
            some (.wrote data,
              { s with
                transport := s.transport.take k
                fed := s.fed - k
                handler := .draining id }.write high (upper data))
          else if s.eof then some (.closes, s.finish id none)
          else none
  | .draining id =>
      match s.transport.lost with
      | some (some e) => some (.closes, s.finish id (some e))
      | some none => some (.closes, s.finish id (some .connectionResetError))
      | none => if s.paused then none else some (.drained, { s with handler := .reading id })
  | .closing id raised =>
      match s.transport.lost with
      | none => none
      | some (some e) => some (.raised e, { s with handler := .raised id e })
      | some none =>
          match raised with
          | some e => some (.raised e, { s with handler := .raised id e })
          | none => some (.returned, { s with handler := .returned id })
  | .absent | .returned _ | .raised _ _ => none

/-- Writing goes on from the mark `low`. -/
def resumeWriting (low : ℕ) (s : StreamConn) : StreamConn :=
  if s.transport.line.queued.length ≤ low then { s with paused := false } else s

/-- The next step of a connection. -/
def step (high low : ℕ) (s : StreamConn) : Act → Option (Event × StreamConn)
  | .engine a =>
      match s.transport.step a with
      | some t => some (.engine a, { s with transport := t }.resumeWriting low)
      | none => none
  | .accept =>
      if s.transport.made then none
      else some (.accepted, { s with transport := { s.transport with made := true } })
  | .start id =>
      if s.transport.made ∧ s.handler = .absent then
        some (.started id, { s with handler := .reading id })
      else none
  | .feed k =>
      if s.transport.Reads ∧ 0 < k ∧ s.fed + k ≤ s.transport.line.unread.length then
        some (.fed k, { s with fed := s.fed + k })
      else none
  | .feedEof =>
      if s.transport.Reads ∧ s.fed = s.transport.line.unread.length ∧ s.transport.ended ∧
          ¬ s.eof then
        some (.fedEof, { s with eof := true })
      else none
  | .resume => s.resume high

end StreamConn

/-! ## What holds of a connection -/

namespace Handler

/-- `writer.close()` has been called. -/
def Over : Handler → Prop
  | .closing _ _ | .returned _ | .raised _ _ => True
  | _ => False

/-- The number of the client. -/
def id : Handler → Option ℕ
  | .absent => none
  | .reading id | .draining id | .closing id _ | .returned id | .raised id _ => some id

/-- How much of its code a coroutine has still to run. -/
def toDo : Handler → ℕ
  | .absent | .draining _ => 3
  | .reading _ => 2
  | .closing _ _ => 1
  | .returned _ | .raised _ _ => 0

end Handler

namespace StreamConn

variable {high low : ℕ} {s s' : StreamConn} {e : Event}

/-- What holds of every connection in every run. -/
structure Ok (low : ℕ) (s : StreamConn) : Prop where
  transport : s.transport.Ok
  fed : s.fed ≤ s.transport.line.unread.length
  eof : s.eof = true → s.transport.ended = true ∧ s.fed = s.transport.line.unread.length
  paused : s.paused = true → low < s.transport.line.queued.length
  made : s.handler ≠ .absent → s.transport.made = true
  closed : s.handler.Over → s.transport.closing = true
  /-- Unless it fails, the server closes at the end of the stream. -/
  atEnd : s.transport.closing = true → s.transport.Clean →
    s.handler.Over ∧ s.transport.AtEnd
  closing : ∀ id raised, s.handler = .closing id raised → s.transport.Clean → raised = none
  returned : ∀ id, s.handler = .returned id → s.transport.lost = some none
  raised : ∀ id e, s.handler = .raised id e → ¬ s.transport.Clean

theorem Ok.new (low : ℕ) : Ok low new where
  transport := Transport.Ok.new
  fed := Nat.zero_le _
  eof h := by cases h
  paused h := by cases h
  made h := absurd rfl h
  closed h := h.elim
  atEnd h := by cases h
  closing id raised h := by cases h
  returned id h := by cases h
  raised id e h := by cases h

theorem paused_resumeWriting (h : (s.resumeWriting low).paused = true) :
    low < s.transport.line.queued.length := by
  rw [resumeWriting] at h
  split at h
  · cases h
  · next hnot => exact Nat.lt_of_not_le hnot

theorem resumeWriting_frame (s : StreamConn) (low : ℕ) :
    (s.resumeWriting low).transport = s.transport ∧ (s.resumeWriting low).fed = s.fed ∧
      (s.resumeWriting low).eof = s.eof ∧ (s.resumeWriting low).handler = s.handler := by
  rw [resumeWriting]
  split <;> exact ⟨rfl, rfl, rfl, rfl⟩

/-- The client and the loop keep it. -/
theorem Ok.engine (h : Ok low s) {a : Transport.Act} {t : Transport}
    (ht : s.transport.step a = some t) :
    Ok low ({ s with transport := t }.resumeWriting low) := by
  have hframe := Transport.Frame.of_step ht
  obtain ⟨htr, hfed, heof, hhandler⟩ := resumeWriting_frame { s with transport := t } low
  constructor
  · rw [htr]
    exact h.transport.step ht
  · rw [htr, hfed]
    exact Nat.le_trans h.fed hframe.unread.length_le
  · rw [htr, hfed, heof]
    intro he
    obtain ⟨hend, hall⟩ := h.eof he
    exact ⟨(hframe.ended hend).1, by rw [(hframe.ended hend).2]; exact hall⟩
  · rw [htr]
    exact fun hpaused => paused_resumeWriting hpaused
  · rw [htr, hhandler]
    exact fun hne => hframe.made.trans (h.made hne)
  · rw [htr, hhandler]
    exact fun hover => hframe.closing (h.closed hover)
  · rw [htr, hhandler]
    intro hc hclean
    obtain ⟨hover, hatEnd⟩ := h.atEnd (hframe.closing_eq hclean ▸ hc) (hframe.clean hclean)
    exact ⟨hover, hframe.atEnd hatEnd⟩
  · rw [htr, hhandler]
    exact fun id raised hat hclean => h.closing id raised hat (hframe.clean hclean)
  · rw [htr, hhandler]
    intro id hat
    have hlost := h.returned id hat
    exact (hframe.lost (by rw [hlost]; simp)).trans hlost
  · rw [htr, hhandler]
    exact fun id e hat hclean => h.raised id e hat (hframe.clean hclean)

/-- While `_handle_client` is in its loop, the loop does not lose the connection without an
error. -/
theorem Ok.lost_ne (h : Ok low s) (hnot : ¬ s.handler.Over) : s.transport.lost ≠ some none := by
  intro hlost
  have hclosing := h.transport.closing (by rw [hlost]; simp)
  refine hnot (h.atEnd hclosing fun e he => ?_).1
  rw [hlost] at he
  cases he

/-- `_handle_client` goes on to another `await` of its loop. -/
theorem Ok.waits (h : Ok low s) (hmade : s.transport.made = true) (hnot : ¬ s.handler.Over)
    {next : Handler} (hnext : ¬ next.Over) : Ok low { s with handler := next } where
  transport := h.transport
  fed := h.fed
  eof := h.eof
  paused := h.paused
  made _ := hmade
  closed hover := absurd hover hnext
  atEnd hc hclean := absurd (h.atEnd hc hclean).1 hnot
  closing _ _ hat := absurd (show next.Over by rw [show next = _ from hat]; trivial) hnext
  returned _ hat := absurd (show next.Over by rw [show next = _ from hat]; trivial) hnext
  raised _ _ hat := absurd (show next.Over by rw [show next = _ from hat]; trivial) hnext

/-- The loop is left by an exception. -/
theorem Ok.finish_failed (h : Ok low s) {e : SockError} (hlost : s.transport.lost = some (some e))
    (hmade : s.transport.made = true) (id : ℕ) : Ok low (s.finish id (some e)) where
  transport := h.transport.close hmade
  fed := h.fed
  eof := h.eof
  paused := h.paused
  made _ := hmade
  closed _ := rfl
  atEnd _ hclean := absurd hlost (hclean e)
  closing _ _ _ hclean := absurd hlost (hclean e)
  returned _ hat := by cases hat
  raised _ _ hat := by cases hat

/-- `read` returns no bytes. -/
theorem Ok.finish_eof (h : Ok low s) (heof : s.eof = true) (hfed : s.fed = 0)
    (hmade : s.transport.made = true) (id : ℕ) : Ok low (s.finish id none) where
  transport := h.transport.close hmade
  fed := h.fed
  eof := h.eof
  paused := h.paused
  made _ := hmade
  closed _ := rfl
  atEnd _ _ := by
    obtain ⟨hended, hall⟩ := h.eof heof
    exact ⟨trivial, hended, List.eq_nil_of_length_eq_zero (hall ▸ hfed)⟩
  closing _ raised hat _ := by
    cases hat
    rfl
  returned _ hat := by cases hat
  raised _ _ hat := by cases hat

/-- What `read` has returned is echoed. -/
theorem Ok.wrote (h : Ok low s) (hmarks : low ≤ high) (hnot : ¬ s.handler.Over)
    (hlost : s.transport.lost = none) (hmade : s.transport.made = true) {k : ℕ} (hk : k ≤ s.fed)
    (id : ℕ) :
    Ok low { s with
      transport := { s.transport with line := s.transport.line.receive upperByte k }
      fed := s.fed - k
      paused := s.paused ||
        decide (high < (s.transport.line.receive upperByte k).queued.length)
      handler := .draining id } where
  transport := h.transport.receive hlost k
  fed := by
    have hfed := h.fed
    simp only [Relay.Line.receive, List.length_drop]
    omega
  eof heof := by
    obtain ⟨hended, hall⟩ := h.eof heof
    refine ⟨hended, ?_⟩
    simp only [Relay.Line.receive, List.length_drop]
    rw [hall]
  paused hpaused := by
    have hgrows : s.transport.line.queued.length ≤
        (s.transport.line.receive upperByte k).queued.length := by
      simp only [Relay.Line.receive, List.length_append]
      omega
    rcases Bool.or_eq_true _ _ ▸ hpaused with hold | hnew
    · exact Nat.lt_of_lt_of_le (h.paused hold) hgrows
    · exact Nat.lt_of_le_of_lt hmarks (of_decide_eq_true hnew)
  made _ := hmade
  closed hover := hover.elim
  atEnd hc hclean := absurd (h.atEnd hc hclean).1 hnot
  closing _ _ hat := by cases hat
  returned _ hat := by cases hat
  raised _ _ hat := by cases hat

/-- `_handle_client` keeps it. -/
theorem Ok.resume (h : Ok low s) (hmarks : low ≤ high) (hs : s.resume high = some (e, s')) :
    Ok low s' := by
  rw [StreamConn.resume] at hs
  cases hat : s.handler with
  | reading id =>
      have hmade := h.made (by rw [hat]; exact Handler.noConfusion)
      have hnot : ¬ s.handler.Over := by rw [hat]; exact not_false
      rw [hat] at hs
      dsimp only at hs
      cases hlost : s.transport.lost with
      | none =>
          rw [hlost] at hs
          dsimp only at hs
          split at hs
          · cases hs
            rw [write, Transport.take_write hlost]
            exact h.wrote hmarks hnot hlost hmade (Nat.min_le_right _ _) id
          · next hfed =>
            split at hs
            · next heof =>
              cases hs
              exact h.finish_eof heof (Nat.eq_zero_of_not_pos hfed) hmade id
            · cases hs
      | some lost =>
          cases lost with
          | none => exact absurd hlost (h.lost_ne hnot)
          | some e =>
              rw [hlost] at hs
              cases hs
              exact h.finish_failed hlost hmade id
  | draining id =>
      have hmade := h.made (by rw [hat]; exact Handler.noConfusion)
      have hnot : ¬ s.handler.Over := by rw [hat]; exact not_false
      rw [hat] at hs
      dsimp only at hs
      cases hlost : s.transport.lost with
      | none =>
          rw [hlost] at hs
          dsimp only at hs
          split at hs
          · cases hs
          · cases hs
            exact h.waits hmade hnot not_false
      | some lost =>
          cases lost with
          | none => exact absurd hlost (h.lost_ne hnot)
          | some e =>
              rw [hlost] at hs
              cases hs
              exact h.finish_failed hlost hmade id
  | closing id raised =>
      have hmade := h.made (by rw [hat]; exact Handler.noConfusion)
      have hover : s.transport.closing = true := h.closed (by rw [hat]; trivial)
      rw [hat] at hs
      dsimp only at hs
      cases hlost : s.transport.lost with
      | none =>
          rw [hlost] at hs
          cases hs
      | some lost =>
          cases lost with
          | some e =>
              rw [hlost] at hs
              cases hs
              have hfailed : ¬ s.transport.Clean := fun hclean => hclean e hlost
              exact ⟨h.transport, h.fed, h.eof, h.paused, fun _ => hmade, fun _ => hover,
                fun _ hclean => absurd hclean hfailed, fun _ _ hid => (by cases hid),
                fun _ hid => (by cases hid), fun _ _ _ => hfailed⟩
          | none =>
              have hclean : s.transport.Clean := fun e he => by rw [hlost] at he; cases he
              have hnone := h.closing id raised hat hclean
              subst hnone
              rw [hlost] at hs
              cases hs
              exact ⟨h.transport, h.fed, h.eof, h.paused, fun _ => hmade, fun _ => hover,
                fun hc hclean => ⟨trivial, (h.atEnd hc hclean).2⟩, fun _ _ hid => (by cases hid),
                fun _ _ => hlost, fun _ _ hid => (by cases hid)⟩
  | absent | returned _ | raised _ _ =>
      rw [hat] at hs
      cases hs

theorem Ok.step (h : Ok low s) (hmarks : low ≤ high) {a : Act}
    (hs : s.step high low a = some (e, s')) : Ok low s' := by
  cases a with
  | engine a =>
      rw [StreamConn.step] at hs
      split at hs
      · next t ht =>
        cases hs
        exact h.engine ht
      · cases hs
  | accept =>
      rw [StreamConn.step] at hs
      split at hs
      · cases hs
      · cases hs
        exact ⟨h.transport.accepted, h.fed, h.eof, h.paused, fun _ => rfl, h.closed, h.atEnd,
          h.closing, h.returned, h.raised⟩
  | start id =>
      rw [StreamConn.step] at hs
      split at hs
      · next hok =>
        cases hs
        have hnot : ¬ s.handler.Over := by rw [hok.2]; exact not_false
        exact h.waits hok.1 hnot not_false
      · cases hs
  | feed k =>
      rw [StreamConn.step] at hs
      split at hs
      · next hok =>
        cases hs
        have hfed : ∀ n, s.eof = true → n = s.fed + k → n = s.transport.line.unread.length := by
          intro n heof hn
          have hall := (h.eof heof).2
          omega
        exact ⟨h.transport, hok.2.2, fun heof => ⟨(h.eof heof).1, hfed _ heof rfl⟩, h.paused,
          h.made, h.closed, h.atEnd, h.closing, h.returned, h.raised⟩
      · cases hs
  | feedEof =>
      rw [StreamConn.step] at hs
      split at hs
      · next hok =>
        cases hs
        exact ⟨h.transport, h.fed, fun _ => ⟨hok.2.2.1, hok.2.1⟩, h.paused, h.made, h.closed,
          h.atEnd, h.closing, h.returned, h.raised⟩
      · cases hs
  | resume => exact h.resume hmarks hs

/-- `drain` bounds what is in the write buffer. -/
structure Bounded (high : ℕ) (s : StreamConn) : Prop where
  queued : s.transport.line.queued.length ≤ high + readSize
  resumed : s.paused = false → s.transport.line.queued.length ≤ high
  absent : s.handler = .absent → s.paused = false
  reading : ∀ id, s.handler = .reading id → s.paused = false

theorem Bounded.new (high : ℕ) : Bounded high new where
  queued := Nat.zero_le _
  resumed _ := Nat.zero_le _
  absent _ := rfl
  reading _ _ := rfl

theorem Bounded.engine (h : Bounded high s) (hmarks : low ≤ high) {a : Transport.Act}
    {t : Transport} (ht : s.transport.step a = some t) :
    Bounded high ({ s with transport := t }.resumeWriting low) := by
  have hqueued := (Transport.Frame.of_step ht).queued
  have hbound := h.queued
  rw [resumeWriting]
  split
  · next hlow =>
    exact ⟨Nat.le_trans hqueued hbound, fun _ => Nat.le_trans hlow hmarks, fun _ => rfl,
      fun _ _ => rfl⟩
  · exact ⟨Nat.le_trans hqueued hbound, fun hp => Nat.le_trans hqueued (h.resumed hp), h.absent,
      h.reading⟩

/-- A response is at most as long as what `read` asks for. -/
theorem Bounded.resume (h : Bounded high s) (hs : s.resume high = some (e, s')) :
    Bounded high s' := by
  have hfinish : ∀ id raised, Bounded high (s.finish id raised) := fun id raised =>
    ⟨h.queued, h.resumed, fun hat => (by cases hat), fun _ hat => (by cases hat)⟩
  rw [StreamConn.resume] at hs
  split at hs
  · next id hat =>
    split at hs
    · cases hs
      exact hfinish _ _
    · split at hs
      · cases hs
        have hopen := h.resumed (h.reading id hat)
        have htaken : (upper (s.transport.line.unread.take (min readSize s.fed))).length ≤
            readSize := by
          rw [upper, List.length_map, List.length_take]
          omega
        have hwritten : ((s.transport.take (min readSize s.fed)).write
            (upper (s.transport.line.unread.take (min readSize s.fed)))).line.queued.length ≤
              high + readSize := by
          rw [Transport.write]
          split
          · simp only [Transport.take, List.length_append]
            omega
          · exact h.queued
        refine ⟨hwritten, fun hp => ?_, fun hid => (by cases hid), fun _ hid => (by cases hid)⟩
        exact Nat.le_of_not_lt (of_decide_eq_false (Bool.or_eq_false_iff.mp hp).2)
      · split at hs
        · cases hs
          exact hfinish _ _
        · cases hs
  · split at hs
    · cases hs
      exact hfinish _ _
    · cases hs
      exact hfinish _ _
    · split at hs
      · cases hs
      · next hp =>
        cases hs
        exact ⟨h.queued, h.resumed, fun hat => (by cases hat),
          fun _ _ => Bool.eq_false_iff.mpr hp⟩
  · split at hs
    · cases hs
    · cases hs
      exact ⟨h.queued, h.resumed, fun hat => (by cases hat), fun _ hat => (by cases hat)⟩
    · split at hs
      all_goals
        cases hs
        exact ⟨h.queued, h.resumed, fun hat => (by cases hat), fun _ hat => (by cases hat)⟩
  all_goals cases hs

theorem Bounded.step (h : Bounded high s) (hmarks : low ≤ high) {a : Act}
    (hs : s.step high low a = some (e, s')) : Bounded high s' := by
  cases a with
  | engine a =>
      rw [StreamConn.step] at hs
      split at hs
      · next t ht =>
        cases hs
        exact h.engine hmarks ht
      · cases hs
  | start id =>
      rw [StreamConn.step] at hs
      split at hs
      · next hok =>
        cases hs
        exact ⟨h.queued, h.resumed, fun _ => h.absent hok.2, fun _ _ => h.absent hok.2⟩
      · cases hs
  | accept =>
      rw [StreamConn.step] at hs
      split at hs
      · cases hs
      · cases hs
        exact ⟨h.queued, h.resumed, h.absent, h.reading⟩
  | resume => exact h.resume hs
  | _ =>
      rw [StreamConn.step] at hs
      split at hs
      · cases hs
        exact ⟨h.queued, h.resumed, h.absent, h.reading⟩
      · cases hs

theorem resume_id (hs : s.resume high = some (e, s')) : s'.handler.id = s.handler.id := by
  rw [StreamConn.resume] at hs
  cases hat : s.handler with
  | reading id | draining id | closing id raised =>
      rw [hat] at hs
      dsimp only at hs
      repeat' split at hs
      all_goals first
        | (cases hs; rfl)
        | cases hs
  | absent | returned _ | raised _ _ =>
      rw [hat] at hs
      cases hs

/-- A connection keeps its number. -/
theorem id_step {a : Act} (hs : s.step high low a = some (e, s')) :
    (∃ id, a = .start id ∧ s.handler.id = none ∧ s'.handler.id = some id) ∨
      ((∀ id, a ≠ .start id) ∧ s'.handler.id = s.handler.id) := by
  cases a with
  | start id =>
      rw [StreamConn.step] at hs
      split at hs
      · next hok =>
        cases hs
        exact .inl ⟨id, rfl, by rw [hok.2]; rfl, rfl⟩
      · cases hs
  | engine a =>
      rw [StreamConn.step] at hs
      split at hs
      · next t ht =>
        cases hs
        refine .inr ⟨fun _ => Act.noConfusion, ?_⟩
        rw [(resumeWriting_frame { s with transport := t } low).2.2.2]
      · cases hs
  | resume => exact .inr ⟨fun _ => Act.noConfusion, resume_id hs⟩
  | accept =>
      rw [StreamConn.step] at hs
      split at hs
      · cases hs
      · cases hs
        exact .inr ⟨fun _ => Act.noConfusion, rfl⟩
  | _ =>
      rw [StreamConn.step] at hs
      split at hs
      · cases hs
        exact .inr ⟨fun _ => Act.noConfusion, rfl⟩
      · cases hs

end StreamConn

end Io

/-
# The proactor server with coroutines (`python/io_multiplexing/proactor_server.py`, variant B)

A coroutine for each connection, numbered in the order in which they start.  `coroutine_echo` : a
coroutine that has returned has echoed everything that its client sent, and what waits to be sent is
bounded by the high water mark and one read.
-/
import Cocurrency.Io.ProactorServed
import Cocurrency.Lib.Family

namespace Io

/-- `ProactorCoroutineServer`. -/
structure ProactorCoroutineServer where
  conns : Conn → StreamConn
  clientCount : ℕ

namespace ProactorCoroutineServer

variable {high low : ℕ} {server server' : ProactorCoroutineServer} {e : Conn × StreamConn.Event}

/-- At the start no connection is accepted. -/
def new : ProactorCoroutineServer := ⟨fun _ => .new, 0⟩

/-- A coroutine takes the next number when it starts. -/
def step (high low : ℕ) (server : ProactorCoroutineServer) (a : Conn × StreamConn.Act) :
    Option ((Conn × StreamConn.Event) × ProactorCoroutineServer) :=
  match a.2 with
  | .start id =>
      if id = server.clientCount + 1 then
        match familyStep (StreamConn.step high low) server.conns a with
        | some (e, conns) => some (e, ⟨conns, id⟩)
        | none => none
      else none
  | _ =>
      match familyStep (StreamConn.step high low) server.conns a with
      | some (e, conns) => some (e, { server with conns := conns })
      | none => none

/-- A step of the server is one of a connection, and takes a number if it starts a coroutine. -/
theorem step_cases {c : Conn} {a : StreamConn.Act}
    (hs : server.step high low (c, a) = some (e, server')) :
    ∃ e₁ s₁, (server.conns c).step high low a = some (e₁, s₁) ∧
      server'.conns = Function.update server.conns c s₁ ∧
      ((a = .start (server.clientCount + 1) ∧
          server'.clientCount = server.clientCount + 1) ∨
        ((∀ id, a ≠ .start id) ∧ server'.clientCount = server.clientCount)) := by
  rw [step] at hs
  split at hs
  · next id hid =>
    split at hs
    · next hnext =>
      split at hs
      · next e' conns hf =>
        cases hs
        obtain ⟨e₁, s₁, hs₁, -, rfl⟩ := familyStep_eq_some hf
        exact ⟨e₁, s₁, hs₁, rfl, .inl ⟨by rw [← hnext]; exact hid, hnext⟩⟩
      · cases hs
    · cases hs
  · next hnot =>
    split at hs
    · next e' conns hf =>
      cases hs
      obtain ⟨e₁, s₁, hs₁, -, rfl⟩ := familyStep_eq_some hf
      exact ⟨e₁, s₁, hs₁, rfl, .inr ⟨hnot, rfl⟩⟩
    · cases hs

/-- The numbers given so far are `1`, …, `clientCount`, each to one connection. -/
structure Numbered (server : ProactorCoroutineServer) : Prop where
  bounds : ∀ c id, (server.conns c).handler.id = some id → 1 ≤ id ∧ id ≤ server.clientCount
  inj : ∀ c d id, (server.conns c).handler.id = some id →
    (server.conns d).handler.id = some id → c = d
  given : ∀ id, 1 ≤ id → id ≤ server.clientCount → ∃ c, (server.conns c).handler.id = some id

/-- At the start there are no numbers. -/
theorem Numbered.new : Numbered new where
  bounds _ _ h := by cases h
  inj _ _ _ h := by cases h
  given id hpos hle := absurd hle (Nat.not_le_of_lt hpos)

/-- **The step lemma** for the numbers. -/
theorem Numbered.step (h : Numbered server) {c : Conn} {a : StreamConn.Act}
    (hs : server.step high low (c, a) = some (e, server')) : Numbered server' := by
  obtain ⟨e₁, s₁, hs₁, hconns, hcount⟩ := step_cases hs
  have hself : (server'.conns c).handler.id = s₁.handler.id := by
    rw [hconns, Function.update_self]
  have hother : ∀ d, d ≠ c → (server'.conns d).handler.id = (server.conns d).handler.id :=
    fun d hd => by rw [hconns, Function.update_of_ne hd]
  rcases StreamConn.id_step hs₁ with ⟨id, rfl, hnone, hid⟩ | ⟨hnot, hid⟩
  · -- the connection takes the next number
    obtain ⟨hnext, hcount⟩ | ⟨hnot, -⟩ := hcount
    swap
    · exact absurd rfl (hnot id)
    obtain rfl : id = server.clientCount + 1 := by injection hnext
    have hnew : (server'.conns c).handler.id = some (server.clientCount + 1) := by
      rw [hself, hid]
    have hold : ∀ d i, d ≠ c → (server'.conns d).handler.id = some i →
        1 ≤ i ∧ i ≤ server.clientCount := fun d i hd hi => h.bounds d i (hother d hd ▸ hi)
    refine ⟨fun d i hi => ?_, fun d d' i hi hi' => ?_, fun i hpos hle => ?_⟩
    · by_cases hd : d = c
      · subst hd
        rw [hnew] at hi
        cases hi
        omega
      · have hle := hold d i hd hi
        omega
    · by_cases hd : d = c
      · by_cases hd' : d' = c
        · rw [hd, hd']
        · subst hd
          rw [hnew] at hi
          cases hi
          have hle := hold d' _ hd' hi'
          omega
      · by_cases hd' : d' = c
        · subst hd'
          rw [hnew] at hi'
          cases hi'
          have hle := hold d _ hd hi
          omega
        · exact h.inj d d' i (hother d hd ▸ hi) (hother d' hd' ▸ hi')
    · by_cases hi : i = server.clientCount + 1
      · exact ⟨c, by rw [hi, hnew]⟩
      · obtain ⟨d, hd⟩ := h.given i hpos (by omega)
        refine ⟨d, ?_⟩
        rw [hother d fun hdc => ?_]
        · exact hd
        · rw [hdc, hnone] at hd
          cases hd
  · -- all keep theirs
    obtain ⟨rfl, -⟩ | ⟨-, hcount⟩ := hcount
    · exact absurd rfl (hnot _)
    have hsame : ∀ d, (server'.conns d).handler.id = (server.conns d).handler.id := by
      intro d
      by_cases hd : d = c
      · subst hd
        rw [hself, hid]
      · exact hother d hd
    refine ⟨fun d i hi => ?_, fun d d' i hi hi' => ?_, fun i hpos hle => ?_⟩
    · rw [hcount]
      exact h.bounds d i (hsame d ▸ hi)
    · exact h.inj d d' i (hsame d ▸ hi) (hsame d' ▸ hi')
    · obtain ⟨d, hd⟩ := h.given i hpos (hcount ▸ hle)
      exact ⟨d, (hsame d).trans hd⟩

/-- What holds in every state. -/
structure Ok (high low : ℕ) (server : ProactorCoroutineServer) : Prop where
  conns : ∀ c, (server.conns c).Ok low
  bounded : ∀ c, (server.conns c).Bounded high
  numbered : server.Numbered

/-- At the start nothing has happened. -/
theorem Ok.new (high low : ℕ) : Ok high low new :=
  ⟨fun _ => .new low, fun _ => .new high, .new⟩

/-- **The step lemma**. -/
theorem Ok.step (h : Ok high low server) (hmarks : low ≤ high) {a : Conn × StreamConn.Act}
    (hs : server.step high low a = some (e, server')) : Ok high low server' := by
  obtain ⟨c, a⟩ := a
  obtain ⟨e₁, s₁, hs₁, hconns, -⟩ := step_cases hs
  refine ⟨fun d => ?_, fun d => ?_, h.numbered.step hs⟩
  · rw [hconns]
    exact Function.forall_update_iff server.conns (fun _ s => s.Ok low) |>.mpr
      ⟨(h.conns c).step hmarks hs₁, fun d _ => h.conns d⟩ d
  · rw [hconns]
    exact Function.forall_update_iff server.conns (fun _ s => s.Bounded high) |>.mpr
      ⟨(h.bounded c).step hmarks hs₁, fun d _ => h.bounded d⟩ d

/-- Where the server does nothing for a connection, its coroutine does nothing; it could start with
one number only. -/
theorem step_eq_none {c : Conn} {a : StreamConn.Act}
    (hnone : server.step high low (c, a) = none)
    (hnext : ∀ id, a = .start id → id = server.clientCount + 1) :
    (server.conns c).step high low a = none := by
  have hfamily : familyStep (StreamConn.step high low) server.conns (c, a) = none := by
    rw [step] at hnone
    split at hnone
    · next id hid =>
      rw [if_pos (hnext id hid)] at hnone
      split at hnone
      · cases hnone
      · assumption
    · split at hnone
      · cases hnone
      · assumption
  rw [familyStep] at hfamily
  split at hfamily
  · assumption
  · cases hfamily

end ProactorCoroutineServer

/-- **Variant B.**  The bytes of every connection are kept, and the write buffer of one never holds
more than a read above the high mark.  A coroutine returns if its connection was lost without an
error, after it has echoed all that its client has sent, and raises if it has failed.  The clients
are numbered in turn.  The server can go on with a connection that has not failed only so often,
until its coroutine has returned, if its client has sent everything. -/
theorem coroutine_echo {high low : ℕ} (hmarks : low ≤ high)
    {h : List (Conn × StreamConn.Event)} {server : ProactorCoroutineServer}
    (hr : Run (ProactorCoroutineServer.step high low) anyStep .new h server) (c : Conn) :
    (server.conns c).transport.line.Sound upperByte ∧
    (server.conns c).transport.line.queued.length ≤ high + StreamConn.readSize ∧
    (∀ id, (server.conns c).handler = .returned id →
      (server.conns c).transport.lost = some none ∧ (server.conns c).transport.AtEnd ∧
        (server.conns c).transport.line.sent = upper (server.conns c).transport.line.received) ∧
    (∀ id e, (server.conns c).handler = .raised id e → ¬ (server.conns c).transport.Clean) ∧
    server.Numbered ∧
    Halts (StreamConn.serveStep high low) (server.conns c) ∧
    ((server.conns c).transport.ended = true → (server.conns c).transport.Clean →
      (∀ a, StreamConn.serves a = true → server.step high low (c, a) = none) →
        ∃ id, (server.conns c).handler = .returned id) := by
  have hok : server.Ok high low := hr.invariant (fun _ s => s.Ok high low) (.new high low)
    fun _ _ _ _ _ h _ hs => h.step hmarks hs
  have hconn := hok.conns c
  refine ⟨hconn.transport.sound, (hok.bounded c).queued, fun id hat => ?_, hconn.raised,
    hok.numbered, StreamConn.halts hconn hmarks, fun hended hclean hstuck => ?_⟩
  · have hlost := hconn.returned id hat
    refine ⟨hlost, (hconn.atEnd (hconn.closed ?_) fun e he => ?_).2, hconn.transport.drained hlost⟩
    · rw [hat]
      trivial
    · rw [hlost] at he
      cases he
  · exact StreamConn.returned_of_stuck hconn hended hclean fun a hserves hnext =>
      ProactorCoroutineServer.step_eq_none (hstuck a hserves) hnext

/-- The same client, with the marks of a transport. -/
def coroutineSession : List (Conn × StreamConn.Act) :=
  [(7, .accept), (9, .accept), (7, .start 1), (7, .engine (.sends [97, 98])), (7, .feed 2),
    (7, .resume), (9, .start 2), (7, .engine (.flush 1)), (7, .engine (.sends [99])), (7, .resume),
    (7, .engine .ends), (7, .feed 1), (7, .resume), (7, .resume), (7, .feedEof), (7, .resume),
    (7, .engine (.flush 2)), (7, .engine .lose), (7, .resume)]

/-- The session, with one connection at its end and one in the middle. -/
theorem coroutine_echo_session :
    ∃ h server, Run (ProactorCoroutineServer.step 65536 16384) anyStep .new h server ∧
      (server.conns 7).handler = .returned 1 ∧ (server.conns 9).handler = .reading 2 ∧
      (server.conns 7).transport.line.received = [97, 98, 99] ∧
      (server.conns 7).transport.line.sent = upper (server.conns 7).transport.line.received := by
  have hr := run_of_replay (ProactorCoroutineServer.step 65536 16384) (s := .new)
    coroutineSession rfl
  exact ⟨_, _, hr, rfl, rfl, rfl, ((coroutine_echo (by decide) hr 7).2.2.1 1 rfl).2.2⟩

end Io

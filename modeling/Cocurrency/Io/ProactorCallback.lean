/-
# The proactor server with callbacks (`python/io_multiplexing/proactor_server.py`, variant A)

`EchoProtocol`, whose methods the loop calls, one object for each connection.  One step is what the
client does, what the loop does with the socket, or a call of a method.  `callback_echo` : a
connection that is lost without an error has echoed everything that its client sent; the reactor
servers drop what is in their send buffers at the end of the stream.
-/
import Cocurrency.Io.Transport
import Cocurrency.Lib.Family
import Cocurrency.Lib.Halting

namespace Io

/-- `EchoProtocol`: whether it has its transport, and the name of its peer. -/
structure EchoProtocol where
  transport : Bool
  peer : String

namespace EchoProtocol

/-- `__init__`. -/
def new : EchoProtocol := ⟨false, "unknown"⟩

/-- `connection_made`. -/
def connectionMade (peer : Option (String × ℕ)) : EchoProtocol where
  transport := true
  peer := match peer with
    | some (host, port) => s!"{host}:{port}"
    | none => "unknown"

/-- `data_received`: what is given to `transport.write`. -/
def dataReceived (p : EchoProtocol) (data : Bytes) : Option Bytes :=
  let response := upper data
  if p.transport then some response else none

/-- `eof_received`: the transport is to be closed. -/
def eofReceived : Bool := false

end EchoProtocol

/-- A connection of `ProactorCallbackServer`. -/
structure CallbackConn where
  transport : Transport
  protocol : EchoProtocol

namespace CallbackConn

/-- What the client and the loop do. -/
inductive Act where
  | engine (a : Transport.Act)
  | accept (peer : Option (String × ℕ))
  /-- A read of `k` bytes is complete. -/
  | read (k : ℕ)
  /-- A read has found the end of the stream. -/
  | eof
  deriving DecidableEq

/-- What a step shows. -/
inductive Event where
  | engine (a : Transport.Act)
  | connectionMade
  | dataReceived (data : Bytes)
  | eofReceived
  deriving DecidableEq

/-- A connection before it is accepted. -/
def new : CallbackConn := ⟨.new, .new⟩

/-- What `data_received` does to the transport. -/
def respond (p : EchoProtocol) (data : Bytes) (t : Transport) : Transport :=
  match p.dataReceived data with
  | some response => t.write response
  | none => t

/-- The next step of a connection. -/
def step (s : CallbackConn) : Act → Option (Event × CallbackConn)
  | .engine a =>
      match s.transport.step a with
      | some t => some (.engine a, { s with transport := t })
      | none => none
  | .accept peer =>
      if s.transport.made then none
      else some (.connectionMade, ⟨{ s.transport with made := true }, .connectionMade peer⟩)
  | .read k =>
      if s.transport.Reads ∧ 0 < k ∧ k ≤ s.transport.line.unread.length then
        let data := s.transport.line.unread.take k
        some (.dataReceived data,
          { s with transport := respond s.protocol data (s.transport.take k) })
      else none
  | .eof =>
      if s.transport.Reads ∧ s.transport.line.unread = [] ∧ s.transport.ended then
        some (.eofReceived,
          { s with transport := if EchoProtocol.eofReceived then s.transport
              else s.transport.close })
      else none

end CallbackConn

/-! ## What holds of a connection -/

namespace CallbackConn

variable {s s' : CallbackConn} {e : Event}

/-- What holds of every connection in every run. -/
structure Ok (s : CallbackConn) : Prop where
  transport : s.transport.Ok
  protocol : s.transport.made = true → s.protocol.transport = true
  /-- The server closes at the end of the stream. -/
  atEnd : s.transport.closing = true → s.transport.Clean → s.transport.AtEnd

/-- At the start nothing has happened. -/
theorem Ok.new : Ok new where
  transport := Transport.Ok.new
  protocol h := by cases h
  atEnd h := by cases h

/-- `data_received` echoes. -/
theorem respond_eq {p : EchoProtocol} (hp : p.transport = true) {t : Transport}
    (hopen : t.lost = none) (k : ℕ) :
    respond p (t.line.unread.take k) (t.take k) =
      { t with line := t.line.receive upperByte k } := by
  rw [respond, EchoProtocol.dataReceived, if_pos hp]
  exact Transport.take_write hopen k

/-- **The step lemma**. -/
theorem Ok.step (h : Ok s) {a : Act} (hs : s.step a = some (e, s')) : Ok s' := by
  cases a with
  | engine a =>
      rw [CallbackConn.step] at hs
      split at hs
      · next t ht =>
        cases hs
        have hframe := Transport.Frame.of_step ht
        refine ⟨h.transport.step ht, fun hm => h.protocol (hframe.made ▸ hm), fun hc hclean => ?_⟩
        exact hframe.atEnd (h.atEnd (hframe.closing_eq hclean ▸ hc) (hframe.clean hclean))
      · cases hs
  | accept peer =>
      rw [CallbackConn.step] at hs
      split at hs
      · cases hs
      · cases hs
        exact ⟨h.transport.accepted, fun _ => rfl, h.atEnd⟩
  | read k =>
      rw [CallbackConn.step] at hs
      split at hs
      · next hok =>
        cases hs
        obtain ⟨⟨hmade, hopen, hlost⟩, -, -⟩ := hok
        have hrespond := respond_eq (h.protocol hmade) hlost k
        refine ⟨?_, fun _ => h.protocol hmade, fun hc => ?_⟩
        · rw [hrespond]
          exact h.transport.receive hlost k
        · rw [hrespond, show (_ : Transport).closing = s.transport.closing from rfl, hopen] at hc
          cases hc
      · cases hs
  | eof =>
      rw [CallbackConn.step] at hs
      split at hs
      · next hok =>
        cases hs
        obtain ⟨⟨hmade, -, -⟩, hunread, hended⟩ := hok
        exact ⟨h.transport.close hmade, h.protocol, fun _ _ => ⟨hended, hunread⟩⟩
      · cases hs

/-- The steps of the loop, on a connection that does not fail. -/
def serves : Act → Bool
  | .engine (.flush _) | .engine .lose | .accept _ | .read _ | .eof => true
  | _ => false

/-- Such a step. -/
def serveStep (s : CallbackConn) (a : Act) : Option (Event × CallbackConn) :=
  if serves a then s.step a else none

/-- What is still to be done. -/
def toDo (s : CallbackConn) : ℕ :=
  2 * s.transport.line.unread.length + s.transport.line.queued.length +
    (if s.transport.made then 0 else 1) + (if s.transport.closing then 0 else 1) +
    if s.transport.lost = none then 1 else 0

/-- Each such step leaves less to be done. -/
theorem toDo_lt (h : Ok s) {a : Act} (hs : s.serveStep a = some (e, s')) :
    s'.toDo < s.toDo := by
  rw [serveStep] at hs
  split at hs
  · next hserves =>
    unfold toDo
    cases a with
    | engine a =>
        rw [CallbackConn.step] at hs
        split at hs
        · next t ht =>
          cases hs
          cases a with
          | flush n =>
              rw [Transport.step] at ht
              split at ht
              · next hok =>
                cases ht
                simp only [Relay.Line.send, List.length_drop]
                omega
              · cases ht
          | lose =>
              rw [Transport.step] at ht
              split at ht
              · next hok =>
                cases ht
                simp [Relay.Line.close, hok.1, hok.2.2]
              · cases ht
          | _ => cases hserves
        · cases hs
    | accept peer =>
        rw [CallbackConn.step] at hs
        split at hs
        · cases hs
        · next hmade =>
          cases hs
          simp only [hmade, if_true, if_false, Bool.false_eq_true]
          omega
    | read k =>
        rw [CallbackConn.step] at hs
        split at hs
        · next hok =>
          cases hs
          obtain ⟨⟨hmade, -, hlost⟩, hpos, hle⟩ := hok
          rw [respond_eq (h.protocol hmade) hlost k]
          simp only [Relay.Line.receive, List.length_drop, List.length_append, List.length_map,
            List.length_take]
          omega
        · cases hs
    | eof =>
        rw [CallbackConn.step] at hs
        split at hs
        · next hok =>
          cases hs
          simp [EchoProtocol.eofReceived, Transport.close, hok.1.2.1]
        · cases hs
  · cases hs

/-- The loop can go on with a connection only so often. -/
theorem halts (h : Ok s) : Halts serveStep s := by
  apply halts_of_measure Ok toDo _ h
  intro s a e s' h hs
  refine ⟨?_, toDo_lt h hs⟩
  rw [serveStep] at hs
  split at hs
  · exact h.step hs
  · cases hs

/-- Where the loop has nothing to do for a connection whose client has sent everything, it is
lost. -/
theorem lost_of_stuck (hended : s.transport.ended = true)
    (hstuck : ∀ a, s.serveStep a = none) : s.transport.lost ≠ none := by
  intro hlost
  have hmade : s.transport.made = true := by
    by_contra hnot
    have hnone := hstuck (.accept none)
    simp [serveStep, serves, CallbackConn.step, hnot] at hnone
  have hclosing : s.transport.closing = true := by
    by_contra hnot
    have hreads : s.transport.Reads := ⟨hmade, Bool.eq_false_iff.mpr hnot, hlost⟩
    cases hunread : s.transport.line.unread with
    | nil =>
        have hnone := hstuck .eof
        simp [serveStep, serves, CallbackConn.step, hreads, hunread, hended] at hnone
    | cons b rest =>
        have hnone := hstuck (.read 1)
        simp [serveStep, serves, CallbackConn.step, hreads, hunread] at hnone
  cases hqueued : s.transport.line.queued with
  | nil =>
      have hnone := hstuck (.engine .lose)
      simp [serveStep, serves, CallbackConn.step, Transport.step, hlost, hclosing, hqueued] at hnone
  | cons b rest =>
      have hnone := hstuck (.engine (.flush 1))
      simp [serveStep, serves, CallbackConn.step, Transport.step, hlost, hqueued] at hnone

end CallbackConn

/-- `ProactorCallbackServer`: its connections, each with a protocol object of its own. -/
def ProactorCallbackServer.step :
    (Conn → CallbackConn) → Conn × CallbackConn.Act →
      Option ((Conn × CallbackConn.Event) × (Conn → CallbackConn)) :=
  familyStep CallbackConn.step

/-- **Variant A.**  The bytes of every connection are kept.  One that is lost without an error has
echoed all that its client has sent; and the loop can go on with a connection that has not failed
only so often, until it is lost, if its client has sent everything. -/
theorem callback_echo {h : List (Conn × CallbackConn.Event)} {server : Conn → CallbackConn}
    (hr : Run ProactorCallbackServer.step anyStep (fun _ => CallbackConn.new) h server) (c : Conn) :
    (server c).transport.line.Sound upperByte ∧
    ((server c).transport.lost = some none →
      (server c).transport.AtEnd ∧
        (server c).transport.line.sent = upper (server c).transport.line.received) ∧
    Halts CallbackConn.serveStep (server c) ∧
    ((server c).transport.ended = true → (server c).transport.Clean →
      (∀ a, (server c).serveStep a = none) → (server c).transport.lost = some none) := by
  have hok : (server c).Ok := (hr.component c).invariant (fun _ s => s.Ok) CallbackConn.Ok.new
    fun _ _ _ _ _ h _ hs => h.step hs
  refine ⟨hok.transport.sound, fun hlost => ⟨?_, hok.transport.drained hlost⟩,
    CallbackConn.halts hok, fun hended hclean hstuck => ?_⟩
  · apply hok.atEnd (hok.transport.closing (by rw [hlost]; simp))
    intro e he
    rw [hlost] at he
    cases he
  · have hne := CallbackConn.lost_of_stuck hended hstuck
    cases hlost : (server c).transport.lost with
    | none => exact absurd hlost hne
    | some e =>
        cases e with
        | none => rfl
        | some e => exact absurd hlost (hclean e)

/-- A client sends two pieces while another one connects. -/
def callbackSession : List (Conn × CallbackConn.Act) :=
  [(7, .accept (some ("127.0.0.1", 40000))), (7, .engine (.sends [97, 98])), (9, .accept none),
    (7, .read 1), (7, .engine (.flush 1)), (7, .engine (.sends [99])), (7, .engine .ends),
    (7, .read 2), (7, .eof), (7, .engine (.flush 2)), (7, .engine .lose)]

/-- The session comes to its end. -/
theorem callback_echo_session :
    ∃ h server, Run ProactorCallbackServer.step anyStep (fun _ => CallbackConn.new) h server ∧
      (server 7).transport.lost = some none ∧
      (server 7).transport.line.received = [97, 98, 99] ∧
      (server 7).transport.line.sent = upper (server 7).transport.line.received := by
  have hr := run_of_replay ProactorCallbackServer.step (s := fun _ => CallbackConn.new)
    callbackSession rfl
  exact ⟨_, _, hr, rfl, rfl, ((callback_echo hr 7).2.1 rfl).2⟩

end Io

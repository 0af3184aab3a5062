/-
# `NIOReactorServer` (`python/io_multiplexing/nio_reactor_server.py`)

The `Reactor` with its watchers and the tables of the asyncio loop under it, and the
callbacks of `Acceptor` and `EchoHandler`.  A handler owns its socket and its send
buffer, so its number is the number of its connection; what the reactor keeps is keyed by
fd numbers.

One step is one callback, in any order.  An exception that leaves a callback is logged by
asyncio, and the loop goes on.
-/
import Cocurrency.Io.Clients

namespace Io

/-! ## Reactor -/

/-- The bound methods that are given to the reactor. -/
inductive Callback where
  | onAccept
  | onRead (c : Conn)
  | onWrite (c : Conn)
  deriving DecidableEq, Repr

/-- Which of `loop.remove_reader`, `loop.remove_writer` a handle calls. -/
inductive Remover where
  | reader
  | writer
  deriving DecidableEq, Repr

/-- `_CancelHandle`. -/
structure CancelHandle where
  fd : Fd
  remover : Remover
  cancelled : Bool

/-- The reactor, and the loop's own tables `readers` and `writers`.  Handles are numbered
in order of creation. -/
structure Reactor where
  readers : Dict Fd Callback
  writers : Dict Fd Callback
  handlers : Dict Fd (Option Callback × Option Callback)
  readWatchers : Dict Fd ℕ
  writeWatchers : Dict Fd ℕ
  nextHandle : ℕ
  handle : ℕ → CancelHandle

namespace Reactor

/-- A reactor with a loop attached. -/
def attached : Reactor where
  readers := Dict.empty
  writers := Dict.empty
  handlers := Dict.empty
  readWatchers := Dict.empty
  writeWatchers := Dict.empty
  nextHandle := 0
  handle := fun _ => ⟨0, .reader, true⟩

/-- `cancel()` of a handle. -/
def cancel (r : Reactor) (h : ℕ) : Reactor :=
  if (r.handle h).cancelled then r
  else
    let r' := { r with handle := Function.update r.handle h { r.handle h with cancelled := true } }
    match (r.handle h).remover with
    | .reader => { r' with readers := r.readers.pop (r.handle h).fd }
    | .writer => { r' with writers := r.writers.pop (r.handle h).fd }

/-- Cancel the handle that a table of watchers has for `fd`, if there is one. -/
def cancelWatcher (r : Reactor) (watchers : Dict Fd ℕ) (fd : Fd) : Reactor :=
  match watchers.get fd with
  | some h => r.cancel h
  | none => r

/-- `_add_read_watcher`. -/
def addReadWatcher (r : Reactor) (fd : Fd) (callback : Callback) : Reactor :=
  let r' := r.cancelWatcher r.readWatchers fd
  { r' with
    readers := r'.readers.set fd callback
    readWatchers := r'.readWatchers.set fd r'.nextHandle
    nextHandle := r'.nextHandle + 1
    handle := Function.update r'.handle r'.nextHandle ⟨fd, .reader, false⟩ }

/-- `_add_write_watcher`. -/
def addWriteWatcher (r : Reactor) (fd : Fd) (callback : Callback) : Reactor :=
  let r' := r.cancelWatcher r.writeWatchers fd
  { r' with
    writers := r'.writers.set fd callback
    writeWatchers := r'.writeWatchers.set fd r'.nextHandle
    nextHandle := r'.nextHandle + 1
    handle := Function.update r'.handle r'.nextHandle ⟨fd, .writer, false⟩ }

/-- `register_read`. -/
def registerRead (r : Reactor) (fd : Fd) (callback : Callback) : Reactor :=
  addReadWatcher
    { r with
      handlers := r.handlers.set fd (some callback, ((r.handlers.get fd).getD (none, none)).2) }
    fd callback

/-- `register_write`. -/
def registerWrite (r : Reactor) (fd : Fd) (callback : Callback) : Reactor :=
  addWriteWatcher
    { r with
      handlers := r.handlers.set fd (((r.handlers.get fd).getD (none, none)).1, some callback) }
    fd callback

/-- `unregister_write`. -/
def unregisterWrite (r : Reactor) (fd : Fd) : Reactor :=
  { r.cancelWatcher r.writeWatchers fd with writeWatchers := r.writeWatchers.pop fd }

/-- `unregister_all`. -/
def unregisterAll (r : Reactor) (fd : Fd) : Reactor :=
  let r' := { r.cancelWatcher r.readWatchers fd with readWatchers := r.readWatchers.pop fd }
  { r'.unregisterWrite fd with handlers := r.handlers.pop fd }

end Reactor

/-! ## Handlers -/

/-- The fields of an `EchoHandler` that change; its socket is the connection of its
number. -/
structure EchoHandler where
  sendBuf : Bytes
  closed : Bool

/-- The server: the connections, the reactor and the handlers. -/
structure NioReactorServer where
  net : Net
  reactor : Reactor
  handler : Conn → EchoHandler

namespace NioReactorServer

/-- At the head of `run_forever`: the acceptor is registered. -/
def start (serverFd : Fd) : NioReactorServer where
  net := .listen serverFd
  reactor := Reactor.attached.registerRead serverFd .onAccept
  handler := fun _ => ⟨[], true⟩

/-- Handler `c` changes. -/
def setHandler (s : NioReactorServer) (c : Conn) (h : EchoHandler) : Conn → EchoHandler :=
  Function.update s.handler c h

/-- `EchoHandler._close`. -/
def close (s : NioReactorServer) (c : Conn) : NioReactorServer :=
  if (s.handler c).closed then s
  else
    { net := s.net.close (.client c)
      reactor := s.reactor.unregisterAll (s.net.stream c).fd
      handler := s.setHandler c { s.handler c with closed := true } }

/-- `EchoHandler.on_read`. -/
def onRead (s : NioReactorServer) (c : Conn) (out : Except SockError ℕ) :
    Ran NioReactorServer :=
  if (s.handler c).closed then { state := s }
  else
    match out with
    | .error e =>
        if e = .blockingIOError ∨ e = .interruptedError then { state := s }
        else if e.endsRecv then { state := s.close c }
        else { state := s, raised := some e }
    | .ok k =>
        if s.net.recvData c k = [] then { state := s.close c }
        else
          { state :=
              { net := s.net.recv c k
                reactor := s.reactor.registerWrite (s.net.stream c).fd (.onWrite c)
                handler := s.setHandler c
                  { s.handler c with
                    sendBuf := (s.handler c).sendBuf ++ upper (s.net.recvData c k) } } }

/-- `EchoHandler.on_write`. -/
def onWrite (s : NioReactorServer) (c : Conn) (out : Except SockError ℕ) :
    Ran NioReactorServer :=
  if (s.handler c).closed then { state := s }
  else if (s.handler c).sendBuf = [] then
    { state := { s with reactor := s.reactor.unregisterWrite (s.net.stream c).fd } }
  else
    match out with
    | .error e =>
        if e = .blockingIOError then { state := s }
        else if e.endsSend then { state := s.close c }
        else { state := s, raised := some e }
    | .ok n =>
        { state :=
            { net := s.net.send c (s.handler c).sendBuf n
              reactor :=
                if (s.handler c).sendBuf.drop n = [] then
                  s.reactor.unregisterWrite (s.net.stream c).fd
                else s.reactor
              handler := s.setHandler c
                { s.handler c with sendBuf := (s.handler c).sendBuf.drop n } } }

/-- One round of the loop of `on_accept`, with the constructor of `EchoHandler`. -/
def addClient (s : NioReactorServer) (fd : Fd) (data : Bytes) : NioReactorServer where
  net := s.net.accept fd data
  reactor := s.reactor.registerRead fd (.onRead s.net.next)
  handler := s.setHandler s.net.next ⟨[], false⟩

/-- `Acceptor.on_accept`. -/
def onAccept (last : SockError) : NioReactorServer → List (Fd × Bytes) → Ran NioReactorServer
  | s, [] => { state := s, raised := if last = .blockingIOError then none else some last }
  | s, (fd, data) :: rest => onAccept last (s.addClient fd data) rest

/-- A callback with what the kernel answers, or what a client does. -/
inductive Action where
  | onAccept (conns : List (Fd × Bytes)) (last : SockError)
  | onRead (c : Conn) (out : Except SockError ℕ)
  | onWrite (c : Conn) (out : Except SockError ℕ)
  | close (c : Conn)
  | clientSend (c : Conn) (data : Bytes)

/-- A callback; only handlers that have been created are called, and `accept` hands out
fd numbers that are free. -/
def step (s : NioReactorServer) : Action → Option (Option SockError × NioReactorServer)
  | .onAccept conns last =>
      if FreshFds s.net conns then
        some ((onAccept last s conns).raised, (onAccept last s conns).state)
      else none
  | .onRead c out =>
      if c < s.net.next then some ((s.onRead c out).raised, (s.onRead c out).state) else none
  | .onWrite c out =>
      if c < s.net.next then some ((s.onWrite c out).raised, (s.onWrite c out).state) else none
  | .close c => if c < s.net.next then some (none, s.close c) else none
  | .clientSend c data => some (none, { s with net := s.net.clientSend c data })

/-! ## Callbacks relay -/

/-- A handler is closed exactly when its socket is, and handlers to come have none. -/
structure Linked (s : NioReactorServer) : Prop where
  closed_eq : ∀ c, (s.handler c).closed = !(s.net.stream c).isOpen
  not_yet : ∀ c, s.net.next ≤ c → (s.net.stream c).isOpen = false

/-- A connection and its handler as a line of a relay: its queue is the handler's send
buffer. -/
def lineOf (st : Stream) (hd : EchoHandler) : Relay.Line UInt8 UInt8 where
  unread := st.unread
  received := st.received
  queued := if st.isOpen then hd.sendBuf else []
  sent := st.sent
  isOpen := st.isOpen

/-- The connections as lines of a relay. -/
def lines (s : NioReactorServer) (c : Conn) : Relay.Line UInt8 UInt8 :=
  lineOf (s.net.stream c) (s.handler c)

variable {s s' s'' : NioReactorServer}

/-- A handler that has not been closed has an open connection. -/
theorem Linked.isOpen (h : Linked s) {c : Conn} (hc : ¬ (s.handler c).closed = true) :
    (s.net.stream c).isOpen = true := by
  have hclosed := h.closed_eq c
  cases ho : (s.net.stream c).isOpen with
  | true => rfl
  | false =>
      rw [ho] at hclosed
      exact absurd hclosed hc

/-- Linked connections and handlers stay linked, and the lines move as those of a
relay. -/
def Relays (s s' : NioReactorServer) : Prop :=
  s.Linked → s'.Linked ∧ Relay.Moves upperByte s.lines s'.lines

theorem Relays.refl (s : NioReactorServer) : Relays s s := fun h => ⟨h, .refl _ _⟩

theorem Relays.trans (h₁ : Relays s s') (h₂ : Relays s' s'') : Relays s s'' := by
  intro h
  obtain ⟨hlinked, hmoves⟩ := h₁ h
  obtain ⟨hlinked', hmoves'⟩ := h₂ hlinked
  exact ⟨hlinked', hmoves.trans hmoves'⟩

/-- A callback that changes connection `c` and its handler, together, moves one line. -/
theorem relays_of_update {c : Conn} {st : Stream} {hd : EchoHandler}
    (hst : s'.net.stream c = st) (hhd : s'.handler c = hd)
    (hstream : ∀ d, d ≠ c → s'.net.stream d = s.net.stream d)
    (hhandler : ∀ d, d ≠ c → s'.handler d = s.handler d) (hnext : s.net.next ≤ s'.net.next)
    (hself : s.Linked → hd.closed = !st.isOpen ∧ (s'.net.next ≤ c → st.isOpen = false) ∧
      Relay.Move upperByte s.lines (Function.update s.lines c (lineOf st hd))) :
    Relays s s' := by
  intro h
  obtain ⟨hclosed, hyet, hmove⟩ := hself h
  have hlines : s'.lines = Function.update s.lines c (lineOf st hd) := by
    funext d
    by_cases hd' : d = c
    · rw [hd', Function.update_self]
      show lineOf (s'.net.stream c) (s'.handler c) = _
      rw [hst, hhd]
    · rw [Function.update_of_ne hd']
      show lineOf (s'.net.stream d) (s'.handler d) = lineOf (s.net.stream d) (s.handler d)
      rw [hstream d hd', hhandler d hd']
  refine ⟨⟨fun d => ?_, fun d hle => ?_⟩, ?_⟩
  · by_cases hd' : d = c
    · rw [hd', hst, hhd]
      exact hclosed
    · rw [hhandler d hd', hstream d hd']
      exact h.closed_eq d
  · by_cases hd' : d = c
    · rw [hd'] at hle ⊢
      rw [hst]
      exact hyet hle
    · rw [hstream d hd']
      exact h.not_yet d (Nat.le_trans hnext hle)
  · rw [hlines]
    exact .single hmove

/-- What a client sends is there to be read. -/
theorem relays_clientSend (s : NioReactorServer) (c : Conn) (data : Bytes) :
    Relays s { s with net := s.net.clientSend c data } :=
  relays_of_update (Net.stream_setStream_self _ _ _) rfl
    (fun _ hd => Net.stream_setStream_of_ne _ _ hd) (fun _ _ => rfl) (Nat.le_refl _)
    fun h => ⟨h.closed_eq c, h.not_yet c, .offer c data⟩

/-- `close` ends a connection with what is in its buffers. -/
theorem relays_close (s : NioReactorServer) (c : Conn) : Relays s (s.close c) := by
  unfold close
  split_ifs with hc
  · exact .refl s
  · exact relays_of_update (Net.stream_setStream_self _ _ _) (Function.update_self _ _ _)
      (fun _ hd => Net.stream_setStream_of_ne _ _ hd) (fun _ hd => Function.update_of_ne hd _ _)
      (Nat.le_refl _) fun _ => ⟨rfl, fun _ => rfl, .close c⟩

/-- `on_read` receives some of what has been sent, or closes. -/
theorem relays_onRead (s : NioReactorServer) (c : Conn) (out : Except SockError ℕ) :
    Relays s (s.onRead c out).state := by
  unfold onRead
  split_ifs with hc
  · exact .refl s
  · split
    · split_ifs
      · exact .refl s
      · exact relays_close s c
      · exact .refl s
    · next k =>
      split_ifs
      · exact relays_close s c
      · refine relays_of_update (Net.stream_setStream_self _ _ _) (Function.update_self _ _ _)
          (fun _ hd => Net.stream_setStream_of_ne _ _ hd)
          (fun _ hd => Function.update_of_ne hd _ _) (Nat.le_refl _)
          fun h => ⟨h.closed_eq c, h.not_yet c, ?_⟩
        have hmove : Relay.Move upperByte s.lines _ := .receive c (min k recvSize)
        simp only [lines, lineOf, Relay.Line.receive, h.isOpen hc] at hmove
        simp only [lineOf, h.isOpen hc]
        exact hmove

/-- `on_write` sends some of what is in the buffer, or closes. -/
theorem relays_onWrite (s : NioReactorServer) (c : Conn) (out : Except SockError ℕ) :
    Relays s (s.onWrite c out).state := by
  unfold onWrite
  split_ifs with hc hbuf
  · exact .refl s
  · intro h
    exact ⟨⟨h.closed_eq, h.not_yet⟩, .refl _ _⟩
  · split
    · split_ifs
      · exact .refl s
      · exact relays_close s c
      · exact .refl s
    · next n =>
      refine relays_of_update (Net.stream_setStream_self _ _ _) (Function.update_self _ _ _)
        (fun _ hd => Net.stream_setStream_of_ne _ _ hd)
        (fun _ hd => Function.update_of_ne hd _ _) (Nat.le_refl _)
        fun h => ⟨h.closed_eq c, h.not_yet c, ?_⟩
      have hmove : Relay.Move upperByte s.lines _ := .send c n (h.isOpen hc)
      simp only [lines, lineOf, Relay.Line.send, h.isOpen hc] at hmove
      simp only [lineOf, h.isOpen hc]
      exact hmove

/-- A new connection starts with what its client has sent. -/
theorem relays_addClient (s : NioReactorServer) (fd : Fd) (data : Bytes) :
    Relays s (s.addClient fd data) :=
  relays_of_update (Net.stream_setStream_self _ _ _) (Function.update_self _ _ _)
    (fun _ hd => Net.stream_setStream_of_ne _ _ hd) (fun _ hd => Function.update_of_ne hd _ _)
    (Nat.le_succ _) fun h => ⟨rfl, fun hle => absurd hle (Nat.not_succ_le_self _),
      .accept _ _ (h.not_yet _ (Nat.le_refl _))⟩

/-- `on_accept` opens connections until it raises. -/
theorem relays_onAccept (last : SockError) (conns : List (Fd × Bytes)) :
    ∀ s : NioReactorServer, Relays s (onAccept last s conns).state := by
  induction conns with
  | nil => exact fun s => .refl s
  | cons x rest ih => exact fun s => (relays_addClient s x.1 x.2).trans (ih _)

/-- Every callback relays. -/
theorem relays_step {a : Action} {e : Option SockError} (h : step s a = some (e, s')) :
    Relays s s' := by
  cases a with
  | onAccept conns last =>
      rw [step] at h
      split_ifs at h
      cases h
      exact relays_onAccept last conns s
  | onRead c out =>
      rw [step] at h
      split_ifs at h
      cases h
      exact relays_onRead s c out
  | onWrite c out =>
      rw [step] at h
      split_ifs at h
      cases h
      exact relays_onWrite s c out
  | close c =>
      rw [step] at h
      split_ifs at h
      cases h
      exact relays_close s c
  | clientSend c data =>
      cases h
      exact relays_clientSend s c data

/-- The integrity of the byte streams, as for the servers with an fd table. -/
def Echoes (s : NioReactorServer) : Prop :=
  ∀ c, ((s.net.stream c).isOpen = true →
      (s.net.stream c).sent ++ (s.handler c).sendBuf = upper (s.net.stream c).received) ∧
    (s.net.stream c).sent <+: upper ((s.net.stream c).received ++ (s.net.stream c).unread)

/-- **The NIO server** echoes in every run. -/
theorem run_echoes {ok : NioReactorServer → Action → Prop} {serverFd : Fd}
    {h : List (Option SockError)} (hr : Run step ok (start serverFd) h s) : s.Echoes := by
  have hinv : s.Linked ∧ ∀ c, (s.lines c).Sound upperByte := by
    refine Run.invariant (fun _ s => s.Linked ∧ ∀ c, (s.lines c).Sound upperByte) ?_ ?_ hr
    · exact ⟨⟨fun _ => rfl, fun _ _ => rfl⟩,
        fun _ => ⟨fun ho => absurd ho Bool.false_ne_true, List.prefix_rfl⟩⟩
    · rintro _ s a e s' ⟨hlinked, hsound⟩ _ hs
      obtain ⟨hlinked', hmoves⟩ := relays_step hs hlinked
      exact ⟨hlinked', hmoves.sound hsound⟩
  intro c
  refine ⟨fun ho => ?_, (hinv.2 c).sent_prefix_offered⟩
  have hline := (hinv.2 c).queued_eq ho
  rw [show (s.lines c).queued = (s.handler c).sendBuf from if_pos ho] at hline
  exact hline

end NioReactorServer

end Io

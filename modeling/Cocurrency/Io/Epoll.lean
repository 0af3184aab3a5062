/-
# `EpollEchoServer` (`python/io_multiplexing/epoll_server.py`)

The handlers for both trigger modes, with and without `EPOLLONESHOT`, and the loop of
`serve_forever` as a step function: `epoll.poll` reports a batch of events, and each
further step handles one of them.

A `while True` loop over `recv` or `accept` is given the answers of the kernel in order,
then the error that ends it (`EAGAIN` if all goes well).
-/
import Cocurrency.Io.Clients

namespace Io

open Clients

/-- How epoll reports an fd: while it is ready, or once it becomes so. -/
inductive TriggerMode where
  | level
  | edge
  deriving DecidableEq, Repr

/-- What epoll has registered for an fd.  An `EPOLLONESHOT` registration is disabled when
an event of it is delivered. -/
structure Registration where
  mask : Mask
  edge : Bool
  oneshot : Bool
  enabled : Bool

/-- The server: the shared tables, its configuration, and what is registered. -/
structure EpollEchoServer extends Clients where
  mode : TriggerMode
  useOneshot : Bool
  epoll : Dict Fd Registration

namespace EpollEchoServer

/-- The registration for `mask`, with `EPOLLET` and `EPOLLONESHOT` as configured. -/
def registration (mode : TriggerMode) (useOneshot : Bool) (mask : Mask) : Registration where
  mask := mask
  edge := mode = .edge
  oneshot := useOneshot
  enabled := true

/-- After `start()`. -/
def start (mode : TriggerMode) (useOneshot : Bool) (serverFd : Fd) : EpollEchoServer where
  toClients := .listen serverFd
  mode := mode
  useOneshot := useOneshot
  epoll := Dict.empty.set serverFd (registration mode useOneshot .pollIn)

/-! ## Helpers -/

/-- Other tables, same configuration and registrations. -/
def withClients (s : EpollEchoServer) (clients : Clients) : EpollEchoServer :=
  { s with toClients := clients }

/-- The clients have been put in place. -/
@[simp] theorem toClients_withClients (s : EpollEchoServer) (clients : Clients) :
    (s.withClients clients).toClients = clients := rfl

/-- `_rearm`; `modify` on an fd that is not registered is an `OSError`, which is
ignored. -/
def rearm (s : EpollEchoServer) (fd : Fd) (mask : Mask) : EpollEchoServer :=
  if (s.epoll.get fd).isSome then
    { s with epoll := s.epoll.set fd (registration s.mode s.useOneshot mask) }
  else s

/-- A new registration is nothing to the clients. -/
@[simp] theorem toClients_rearm (s : EpollEchoServer) (fd : Fd) (mask : Mask) :
    (s.rearm fd mask).toClients = s.toClients := by
  rw [rearm]
  split_ifs <;> rfl

/-- The fd is registered, so `epoll.modify` does not fail. -/
theorem rearm_of_registered {s : EpollEchoServer} {fd : Fd}
    (h : (s.epoll.get fd).isSome = true) (mask : Mask) :
    s.rearm fd mask =
      { s with epoll := s.epoll.set fd (registration s.mode s.useOneshot mask) } := by
  rw [rearm, if_pos h]

/-- `_close_client`. -/
def closeClient (s : EpollEchoServer) (fd : Fd) : EpollEchoServer :=
  { s with
    toClients := s.toClients.close fd
    epoll := if (s.fdToSock.get fd).isSome then s.epoll.pop fd else s.epoll }

/-- The two `try` blocks of `_flush_send`: is the error of `send` one to wait for? -/
def waitsForSend (mode : TriggerMode) (e : SockError) : Bool := mode = .edge && e = .blockingIOError

/-- `_flush_send`. -/
def flushSend (s : EpollEchoServer) (fd : Fd) (c : Conn) (out : Except SockError ℕ) :
    Ran EpollEchoServer :=
  match s.sendBufs.get fd with
  -- `if not buf`
  | none | some [] => { state := s.rearm fd .pollIn }
  | some (b :: rest) =>
      match out with
      | .error e =>
          if waitsForSend s.mode e then { state := s }
          else if e.endsSend then { state := s.closeClient fd }
          else { state := s, raised := some e }
      | .ok n =>
          -- without a new registration, as after a partial send below
          if n = 0 then { state := s }
          else
            let s' := s.withClients (s.toClients.flush fd c (b :: rest) n)
            { state := if (b :: rest).drop n = [] then s'.rearm fd .pollIn else s' }

/-- The `EPOLLOUT` part of both handlers. -/
def flushIf (s : EpollEchoServer) (fd : Fd) (c : Conn) (event : Mask)
    (out : Except SockError ℕ) : Ran EpollEchoServer :=
  if event.writable then s.flushSend fd c out else { state := s }

/-! ## Handlers -/

/-- `_handle_io_lt`.  The listening socket is never dispatched here. -/
def handleIoLt (s : EpollEchoServer) (fd : Fd) (event : Mask)
    (recvOut sendOut : Except SockError ℕ) : Ran EpollEchoServer :=
  match s.fdToSock.get fd with
  | none => { state := s }
  | some .server => { state := s, raised := some .other }
  | some (.client c) =>
      if event.failed then { state := s.closeClient fd }
      else if event.readable then
        match recvOut with
        | .error e =>
            if e.endsRecv then { state := s.closeClient fd }
            else { state := s, raised := some e }
        | .ok k =>
            if s.net.recvData c k = [] then { state := s.closeClient fd }
            else
              ((s.withClients (s.toClients.receive fd c k)).rearm fd .pollInOut).flushIf fd c event
                sendOut
      else s.flushIf fd c event sendOut

/-- How the `recv` loop of `_handle_io_et` ends: at `EAGAIN`, with the number of bytes
read, or in a `return` or an exception. -/
inductive Drained where
  | drained (s : EpollEchoServer) (totalRead : ℕ)
  | left (r : Ran EpollEchoServer)

/-- The `recv` loop of `_handle_io_et`. -/
def drain (fd : Fd) (c : Conn) (last : SockError) :
    EpollEchoServer → ℕ → List ℕ → Drained
  | s, totalRead, [] =>
      if last = .blockingIOError then .drained s totalRead
      else if last.endsRecv then .left { state := s.closeClient fd }
      else .left { state := s, raised := some last }
  | s, totalRead, k :: rest =>
      -- `if not data`: the peer closed
      if s.net.recvData c k = [] then .left { state := s.closeClient fd }
      else
        drain fd c last (s.withClients (s.toClients.receive fd c k))
          (totalRead + (s.net.recvData c k).length) rest

/-- `_handle_io_et`. -/
def handleIoEt (s : EpollEchoServer) (fd : Fd) (event : Mask) (recvs : List ℕ)
    (last : SockError) (sendOut : Except SockError ℕ) : Ran EpollEchoServer :=
  match s.fdToSock.get fd with
  | none => { state := s }
  | some .server => { state := s, raised := some .other }
  | some (.client c) =>
      if event.failed then { state := s.closeClient fd }
      else if event.readable then
        match drain fd c last s 0 recvs with
        | .left r => r
        | .drained s' totalRead =>
            (if 0 < totalRead then s'.rearm fd .pollInOut else s').flushIf fd c event sendOut
      else s.flushIf fd c event sendOut

/-- One round of the `accept` loop: `register` raises on an fd that is registered. -/
def admitClient (s : EpollEchoServer) (fd : Fd) (data : Bytes) : Ran EpollEchoServer :=
  let s' := s.withClients (s.toClients.addClient fd data)
  if (s.epoll.get fd).isSome then { state := s', raised := some .other }
  else
    { state := { s' with epoll := s.epoll.set fd (registration s.mode s.useOneshot .pollIn) } }

/-- The `accept` loop of `_accept_client`, and what follows it. -/
def acceptLoop (last : SockError) : EpollEchoServer → List (Fd × Bytes) → Ran EpollEchoServer
  | s, [] =>
      if last = .blockingIOError then
        { state := if s.useOneshot then s.rearm s.net.serverFd .pollIn else s }
      else { state := s, raised := some last }
  | s, (fd, data) :: rest =>
      (s.admitClient fd data).andThen fun s => acceptLoop last s rest

/-- `_accept_client`. -/
def acceptClient (s : EpollEchoServer) (event : Mask) (conns : List (Fd × Bytes))
    (last : SockError) : Ran EpollEchoServer :=
  if event.readable = false then { state := s } else acceptLoop last s conns

/-- `_cleanup`: every client, then the listening socket. -/
def cleanup (s : EpollEchoServer) : EpollEchoServer :=
  let s' := closeAll toClients closeClient s
  { s' with epoll := s'.epoll.pop s'.net.serverFd }

/-! ## `serve_forever` -/

/-- The server, the events of the last `epoll.poll` that wait for their handler, and
whether the loop still runs. -/
structure Loop where
  server : EpollEchoServer
  batch : List (Fd × Mask)
  running : Bool

/-- What the kernel answers to the calls of one handler. -/
inductive Answer where
  | accept (conns : List (Fd × Bytes)) (last : SockError)
  | lt (recvOut sendOut : Except SockError ℕ)
  | et (recvs : List ℕ) (last : SockError) (sendOut : Except SockError ℕ)

/-- What can happen in the loop. -/
inductive Action where
  | poll (events : List (Fd × Mask))
  /-- the handler of the next event of the batch -/
  | handle (answer : Answer)
  | clientSend (c : Conn) (data : Bytes)
  | stop

/-- What a step shows: a system call, the end of a handler, or that the loop has stopped. -/
inductive Event where
  /-- an exception left the handler; the loop ended -/
  | handlerError (e : SockError)
  | polled
  | handled
  | sent
  | stopped

/-- The bits of an event are bits of interest, or `EPOLLERR` and `EPOLLHUP`, which are
always reported; there is at least one. -/
def Reportable (reg : Registration) (event : Mask) : Prop :=
  reg.enabled = true ∧ (event.readable = true → reg.mask.readable = true) ∧
    (event.writable = true → reg.mask.writable = true) ∧
    (event.readable || event.writable || event.failed) = true

instance (reg : Registration) (event : Mask) : Decidable (Reportable reg event) := by
  unfold Reportable
  infer_instance

/-- `epoll.poll` may report these events: of enabled registrations, none twice. -/
def Reports (s : EpollEchoServer) (events : List (Fd × Mask)) : Prop :=
  (events.map Prod.fst).Nodup ∧
    ∀ x ∈ events, ∃ reg ∈ s.epoll.get x.1, Reportable reg x.2

instance (s : EpollEchoServer) (events : List (Fd × Mask)) : Decidable (s.Reports events) := by
  unfold Reports
  infer_instance

/-- Delivering an event disables an `EPOLLONESHOT` registration. -/
def deliver (epoll : Dict Fd Registration) (x : Fd × Mask) : Dict Fd Registration :=
  match epoll.get x.1 with
  | some reg => if reg.oneshot then epoll.set x.1 { reg with enabled := false } else epoll
  | none => epoll

/-- The dispatch of `serve_forever`; `none` if the answer is not one to this event. -/
def dispatch (s : EpollEchoServer) (fd : Fd) (event : Mask) : Answer →
    Option (Ran EpollEchoServer)
  | .accept conns last =>
      if fd = s.net.serverFd ∧ FreshFds s.net conns then some (s.acceptClient event conns last)
      else none
  | .lt recvOut sendOut =>
      if fd ≠ s.net.serverFd ∧ s.mode = .level then some (s.handleIoLt fd event recvOut sendOut)
      else none
  | .et recvs last sendOut =>
      if fd ≠ s.net.serverFd ∧ s.mode = .edge then
        some (s.handleIoEt fd event recvs last sendOut)
      else none

/-- What follows a handler call, with the rest of the batch. -/
def afterCall (r : Ran EpollEchoServer) (rest : List (Fd × Mask)) : Event × Loop :=
  match r.raised with
  | some e => (.handlerError e, ⟨r.state.cleanup, [], false⟩)
  | none => (.handled, ⟨r.state, rest, true⟩)

/-- A step of the loop. -/
def step (l : Loop) : Action → Option (Event × Loop)
  | .clientSend c data =>
      some (.sent, { l with server := l.server.withClients (l.server.toClients.clientSend c data) })
  | .stop => if l.running then some (.stopped, ⟨l.server.cleanup, [], false⟩) else none
  | .poll events =>
      if l.running = true ∧ l.batch = [] ∧ l.server.Reports events then
        some (.polled,
          { l with
            server := { l.server with epoll := events.foldl deliver l.server.epoll }
            batch := events })
      else none
  | .handle answer =>
      match l.running, l.batch with
      | true, (fd, event) :: rest =>
          match l.server.dispatch fd event answer with
          | some r => some (afterCall r rest)
          | none => none
      | _, _ => none

/-! ## Handlers relay -/

variable {s : EpollEchoServer}

/-- `_flush_send` keeps the bytes of every client in order, whatever the kernel answers. -/
theorem relays_flushSend {fd : Fd} (hfd : fd ≠ s.net.serverFd) {c : Conn}
    (hget : s.fdToSock.get fd = some (.client c)) (out : Except SockError ℕ) :
    Relays s.toClients (s.flushSend fd c out).state.toClients := by
  unfold flushSend
  split
  · rw [toClients_rearm]
    exact .refl _
  · rw [toClients_rearm]
    exact .refl _
  · next b rest hbuf =>
    split
    · split_ifs
      · exact .refl _
      · exact .close hfd
      · exact .refl _
    · dsimp only
      split_ifs
      · exact .refl _
      · rw [toClients_rearm]
        exact .flush hget hbuf _
      · exact .flush hget hbuf _

/-- The part of a handler that deals with `EPOLLOUT`. -/
theorem relays_flushIf {fd : Fd} (hfd : fd ≠ s.net.serverFd) {c : Conn}
    (hget : s.fdToSock.get fd = some (.client c)) (event : Mask) (out : Except SockError ℕ) :
    Relays s.toClients (s.flushIf fd c event out).state.toClients := by
  unfold flushIf
  split_ifs
  · exact relays_flushSend hfd hget out
  · exact .refl _

/-- The handler in `LEVEL` mode. -/
theorem relays_handleIoLt {fd : Fd} (hfd : fd ≠ s.net.serverFd) (event : Mask)
    (recvOut sendOut : Except SockError ℕ) :
    Relays s.toClients (s.handleIoLt fd event recvOut sendOut).state.toClients := by
  unfold handleIoLt
  split
  · exact .refl _
  · exact .refl _
  · next c hget =>
    split_ifs
    · exact .close hfd
    · split
      · split_ifs
        · exact .close hfd
        · exact .refl _
      · next k =>
        split_ifs
        · exact .close hfd
        · have hclients : ((s.withClients (s.toClients.receive fd c k)).rearm fd
              .pollInOut).toClients = s.toClients.receive fd c k := toClients_rearm _ _ _
          apply Relays.trans (Relays.receive hget k)
          generalize (s.withClients (s.toClients.receive fd c k)).rearm fd .pollInOut = s'
            at hclients
          rw [← hclients]
          refine relays_flushIf ?_ ?_ event sendOut
          · rw [hclients]
            exact hfd
          · rw [hclients]
            exact hget
    · exact relays_flushIf hfd hget event sendOut

/-- What the `recv` loop leaves relays, and while it goes on the client stays. -/
theorem relays_drain {fd : Fd} {c : Conn} (last : SockError) (recvs : List ℕ) :
    ∀ (s : EpollEchoServer) (total : ℕ), fd ≠ s.net.serverFd →
      s.fdToSock.get fd = some (.client c) →
      match drain fd c last s total recvs with
      | .left r => Relays s.toClients r.state.toClients
      | .drained s' _ => Relays s.toClients s'.toClients ∧
          s'.net.serverFd = s.net.serverFd ∧ s'.fdToSock = s.fdToSock := by
  induction recvs with
  | nil =>
      intro s total hfd hget
      rw [drain]
      split_ifs
      · exact ⟨.refl _, rfl, rfl⟩
      · exact .close hfd
      · exact .refl _
  | cons k rest ih =>
      intro s total hfd hget
      rw [drain]
      split_ifs
      · exact .close hfd
      · have hrest := ih (s.withClients (s.toClients.receive fd c k))
          (total + (s.net.recvData c k).length) hfd hget
        split at hrest
        · exact (Relays.receive hget k).trans hrest
        · exact ⟨(Relays.receive hget k).trans hrest.1, hrest.2.1, hrest.2.2⟩

/-- The handler in `EDGE` mode, with the loop that reads until it raises. -/
theorem relays_handleIoEt {fd : Fd} (hfd : fd ≠ s.net.serverFd) (event : Mask)
    (recvs : List ℕ) (last : SockError) (sendOut : Except SockError ℕ) :
    Relays s.toClients (s.handleIoEt fd event recvs last sendOut).state.toClients := by
  unfold handleIoEt
  split
  · exact .refl _
  · exact .refl _
  · next c hget =>
    have hdrain := relays_drain last recvs s 0 hfd hget
    split_ifs
    · exact .close hfd
    · split
      · next r hr =>
        rw [hr] at hdrain
        exact hdrain
      · next s' total hr =>
        rw [hr] at hdrain
        obtain ⟨hrelays, hserver, hsock⟩ := hdrain
        have hclients : (if 0 < total then s'.rearm fd .pollInOut else s').toClients =
            s'.toClients := by
          split_ifs
          · exact toClients_rearm _ _ _
          · rfl
        apply hrelays.trans
        rw [← hclients]
        refine relays_flushIf ?_ ?_ event sendOut
        · rw [hclients, hserver]
          exact hfd
        · rw [hclients, hsock]
          exact hget
    · exact relays_flushIf hfd hget event sendOut

/-- Registering the fd with epoll is nothing to the clients. -/
theorem toClients_admitClient (s : EpollEchoServer) (fd : Fd) (data : Bytes) :
    (s.admitClient fd data).state.toClients = s.toClients.addClient fd data := by
  unfold admitClient
  dsimp only
  split_ifs <;> rfl

/-- The loop of `_accept_client` opens new connections, and nothing else. -/
theorem relays_acceptLoop (last : SockError) (conns : List (Fd × Bytes)) :
    ∀ s : EpollEchoServer, FreshFds s.net conns →
      Relays s.toClients (acceptLoop last s conns).state.toClients := by
  induction conns with
  | nil =>
      intro s _
      rw [acceptLoop]
      split_ifs
      · rw [toClients_rearm]
        exact .refl _
      · exact .refl _
      · exact .refl _
  | cons x rest ih =>
      intro s hfresh
      have hclients := toClients_admitClient s x.1 x.2
      refine Relays.andThen toClients ?_ (ih _ ?_)
      · rw [hclients]
        exact .addClient (hfresh.2 x List.mem_cons_self) _
      · rw [hclients]
        exact hfresh.tail

/-- `_accept_client` in either mode. -/
theorem relays_acceptClient {conns : List (Fd × Bytes)} (hfresh : FreshFds s.net conns)
    (event : Mask) (last : SockError) :
    Relays s.toClients (s.acceptClient event conns last).state.toClients := by
  unfold acceptClient
  split_ifs
  · exact .refl _
  · exact relays_acceptLoop last conns s hfresh

/-- Whatever event is handled. -/
theorem relays_dispatch {fd : Fd} {event : Mask} {answer : Answer} {r : Ran EpollEchoServer}
    (h : s.dispatch fd event answer = some r) : Relays s.toClients r.state.toClients := by
  cases answer with
  | accept conns last =>
      rw [dispatch] at h
      split_ifs at h with hok
      cases h
      exact relays_acceptClient hok.2 event last
  | lt recvOut sendOut =>
      rw [dispatch] at h
      split_ifs at h with hok
      cases h
      exact relays_handleIoLt hok.1 event recvOut sendOut
  | et recvs last sendOut =>
      rw [dispatch] at h
      split_ifs at h with hok
      cases h
      exact relays_handleIoEt hok.1 event recvs last sendOut

/-- `_cleanup` closes the connections and sends nothing. -/
theorem relays_cleanup (s : EpollEchoServer) : Relays s.toClients s.cleanup.toClients :=
  relays_closeAll (fun _ _ hfd => .close hfd) s

/-- Every step of the loop relays. -/
theorem relays_step {l l' : Loop} {a : Action} {e : Event} (h : step l a = some (e, l')) :
    Relays l.server.toClients l'.server.toClients := by
  cases a with
  | clientSend c data =>
      cases h
      exact .clientSend _ c data
  | stop =>
      rw [step] at h
      split_ifs at h
      cases h
      exact relays_cleanup _
  | poll events =>
      rw [step] at h
      split_ifs at h
      cases h
      exact .refl _
  | handle answer =>
      unfold step at h
      dsimp only at h
      split at h
      · split at h
        · next r hr =>
          obtain rfl : (afterCall r _).2 = l' := congrArg Prod.snd (Option.some.inj h)
          unfold afterCall
          split
          · exact (relays_dispatch hr).trans (relays_cleanup _)
          · exact relays_dispatch hr
        · cases h
      · cases h

end EpollEchoServer

end Io

/-
# `PollEchoServer` (`python/io_multiplexing/poll_server.py`)

The handlers, and the loop of `serve_forever` as a step function in which one step
handles one entry of a poll result.

Every handler relays (`relays_step`), and the fds registered with the poller are always
the keys of `_fd_to_sock`.  But one event can carry `POLLIN` and `POLLOUT`: when its
`recv` ends the connection, `_handle_read` closes the client and `_handle_write` is
called for it all the same, finds no buffer, and calls `poller.modify` on the fd that was
just unregistered (`not_registered`).  No other ordinary event raises anything
(`run_registered`).
-/
import Cocurrency.Io.Clients

namespace Io

open Clients

/-- The server: the shared tables, what is registered with the poller, and
`_recv_bufs`. -/
structure PollEchoServer extends Clients where
  registered : Dict Fd Mask
  recvBufs : Dict Fd Bytes

namespace PollEchoServer

/-- After `start()`. -/
def start (serverFd : Fd) : PollEchoServer where
  toClients := .listen serverFd
  registered := Dict.empty.set serverFd .pollIn
  recvBufs := Dict.empty

/-! ## Handlers -/

/-- `poller.modify(fd, mask)`. -/
def modify (s : PollEchoServer) (fd : Fd) (mask : Mask) : Ran PollEchoServer :=
  if (s.registered.get fd).isSome then
    { state := { s with registered := s.registered.set fd mask } }
  else { state := s, raised := some .other }

/-- `_accept_client`. -/
def acceptClient (s : PollEchoServer) (event : Mask) (out : Except SockError (Fd × Bytes)) :
    Ran PollEchoServer :=
  if event.readable = false then { state := s }
  else
    match out with
    | .error .blockingIOError => { state := s }
    | .error e => { state := s, raised := some e }
    | .ok (fd, data) =>
        { state :=
            { toClients := s.toClients.addClient fd data
              registered := s.registered.set fd .pollIn
              recvBufs := s.recvBufs.set fd [] } }

/-- `_close_client`. -/
def closeClient (s : PollEchoServer) (fd : Fd) : PollEchoServer where
  toClients := s.toClients.close fd
  registered := if (s.fdToSock.get fd).isSome then s.registered.pop fd else s.registered
  recvBufs := s.recvBufs.pop fd

/-- `_handle_read`. -/
def handleRead (s : PollEchoServer) (fd : Fd) (sock : Sock) (out : Except SockError ℕ) :
    Ran PollEchoServer :=
  match sock with
  | .server => { state := s, raised := some .other }
  | .client c =>
      match out with
      | .error e =>
          if e.endsRecv then { state := s.closeClient fd }
          else { state := s, raised := some e }
      | .ok k =>
          if s.net.recvData c k = [] then { state := s.closeClient fd }
          else
            modify
              { toClients := s.toClients.receive fd c k
                registered := s.registered
                recvBufs := s.recvBufs.set fd
                  ((s.recvBufs.get fd).getD [] ++ s.net.recvData c k) }
              fd .pollInOut

/-- `_handle_write`. -/
def handleWrite (s : PollEchoServer) (fd : Fd) (sock : Sock) (out : Except SockError ℕ) :
    Ran PollEchoServer :=
  match s.sendBufs.get fd, sock with
  | some (_ :: _), .server => { state := s, raised := some .other }
  | some (b :: rest), .client c =>
      match out with
      | .error e =>
          if e.endsSend then { state := s.closeClient fd }
          else { state := s, raised := some e }
      | .ok n =>
          if n = 0 then { state := s }
          else
            let s' : PollEchoServer :=
              { toClients := s.toClients.flush fd c (b :: rest) n
                registered := s.registered
                recvBufs := s.recvBufs }
            if (b :: rest).drop n = [] then s'.modify fd .pollIn else { state := s' }
  -- a spurious POLLOUT
  | _, _ => s.modify fd .pollIn

/-- `_handle_io`.  The socket is looked up once, before the bits are handled one after the
other. -/
def handleIo (s : PollEchoServer) (fd : Fd) (event : Mask) (recvOut sendOut : Except SockError ℕ) :
    Ran PollEchoServer :=
  match s.fdToSock.get fd with
  | none => { state := s }
  | some sock =>
      if event.failed then { state := s.closeClient fd }
      else
        -- nothing looks whether the first handler has closed the client
        (if event.readable then s.handleRead fd sock recvOut else { state := s }).andThen
          fun s => if event.writable then s.handleWrite fd sock sendOut else { state := s }

/-- `_cleanup`: every client, then the listening socket. -/
def cleanup (s : PollEchoServer) : PollEchoServer :=
  let s' := closeAll toClients closeClient s
  { s' with registered := s'.registered.pop s'.net.serverFd }

/-! ## `serve_forever` -/

/-- The server and whether its loop still runs. -/
structure Loop where
  server : PollEchoServer
  running : Bool

/-- What can happen in the loop. -/
inductive Action where
  /-- an event for the listening socket -/
  | accept (event : Mask) (out : Except SockError (Fd × Bytes))
  /-- an event for another fd, with what the kernel answers to `recv` and `send` -/
  | io (fd : Fd) (event : Mask) (recvOut sendOut : Except SockError ℕ)
  | clientSend (c : Conn) (data : Bytes)
  | stop

/-- What a step shows. -/
inductive Event where
  /-- an exception left the handler; the loop ended -/
  | handlerError (e : SockError)
  | handled
  | sent
  | stopped

/-- What follows a handler call. -/
def afterCall (r : Ran PollEchoServer) : Event × Loop :=
  match r.raised with
  | some e => (.handlerError e, ⟨r.state.cleanup, false⟩)
  | none => (.handled, ⟨r.state, true⟩)

/-- A step of the loop.  `accept` hands out an fd number that is free. -/
def step (l : Loop) : Action → Option (Event × Loop)
  | .clientSend c data =>
      some (.sent,
        { l with server := { l.server with toClients := l.server.toClients.clientSend c data } })
  | .stop => if l.running then some (.stopped, ⟨l.server.cleanup, false⟩) else none
  | .accept event out =>
      if l.running = false then none
      else
        match out with
        | .error e => some (afterCall (l.server.acceptClient event (.error e)))
        | .ok (fd, data) =>
            if l.server.net.FdFree fd then
              some (afterCall (l.server.acceptClient event (.ok (fd, data))))
            else none
  | .io fd event recvOut sendOut =>
      if l.running = false then none
      else if fd = l.server.net.serverFd then none
      else some (afterCall (l.server.handleIo fd event recvOut sendOut))

/-! ## Handlers relay -/

variable {s : PollEchoServer}

/-- The fd is registered. -/
theorem modify_of_registered {fd : Fd} (h : (s.registered.get fd).isSome = true) (mask : Mask) :
    s.modify fd mask = { state := { s with registered := s.registered.set fd mask } } := by
  rw [modify, if_pos h]

/-- The fd is not registered, so `poll.modify` raises. -/
theorem modify_of_unregistered {fd : Fd} (h : (s.registered.get fd).isSome = false)
    (mask : Mask) : s.modify fd mask = { state := s, raised := some .other } := by
  rw [modify, h]
  rfl

/-- A registration is nothing to the clients. -/
@[simp] theorem toClients_modify (s : PollEchoServer) (fd : Fd) (mask : Mask) :
    (s.modify fd mask).state.toClients = s.toClients := by
  rw [modify]
  split_ifs <;> rfl

/-- `_accept_client` opens a connection, or nothing. -/
theorem relays_acceptClient (event : Mask) (out : Except SockError (Fd × Bytes))
    (hfree : ∀ fd data, out = .ok (fd, data) → s.net.FdFree fd) :
    Relays s.toClients (s.acceptClient event out).state.toClients := by
  unfold acceptClient
  split_ifs
  · exact .refl _
  · match out with
    | .error e => cases e <;> exact .refl _
    | .ok (fd, data) => exact .addClient (hfree fd data rfl) data

/-- `_handle_read` keeps the bytes of every client in order. -/
theorem relays_handleRead {fd : Fd} (hfd : fd ≠ s.net.serverFd) {sock : Sock}
    (hget : s.fdToSock.get fd = some sock) (out : Except SockError ℕ) :
    Relays s.toClients (s.handleRead fd sock out).state.toClients := by
  unfold handleRead
  split
  · exact .refl _
  · split
    · split_ifs
      · exact .close hfd
      · exact .refl _
    · split_ifs
      · exact .close hfd
      · rw [toClients_modify]
        exact .receive hget _

/-- Also when `sock` is no longer the socket under `fd`, but nothing is. -/
theorem relays_handleWrite {fd : Fd} (hfd : fd ≠ s.net.serverFd) {sock : Sock}
    (hget : s.fdToSock.get fd = some sock ∨ s.fdToSock.get fd = none)
    (out : Except SockError ℕ) :
    Relays s.toClients (s.handleWrite fd sock out).state.toClients := by
  refine .of_linked fun h => ?_
  unfold handleWrite
  split
  · exact .refl _
  · next b rest c hbuf =>
    -- a send buffer has a client under its fd
    have hclient : s.fdToSock.get fd = some (.client c) := by
      rcases hget with hget | hget
      · exact hget
      · obtain ⟨c', hc'⟩ := (h.buf_iff fd).mp (by rw [hbuf]; rfl)
        rw [hget] at hc'
        cases hc'
    split
    · split_ifs
      · exact .close hfd
      · exact .refl _
    · dsimp only
      split_ifs
      · exact .refl _
      · rw [toClients_modify]
        exact .flush hclient hbuf _
      · exact .flush hclient hbuf _
  · rw [toClients_modify]
    exact .refl _

/-- What `_handle_read` leaves under the fd: the socket, or nothing. -/
theorem get_handleRead {fd : Fd} {sock : Sock} (hget : s.fdToSock.get fd = some sock)
    (out : Except SockError ℕ) :
    (s.handleRead fd sock out).state.fdToSock.get fd = some sock ∨
      (s.handleRead fd sock out).state.fdToSock.get fd = none := by
  unfold handleRead
  split
  · exact Or.inl hget
  · split
    · split_ifs
      · exact Or.inr (Dict.get_pop_self _ _)
      · exact Or.inl hget
    · split_ifs
      · exact Or.inr (Dict.get_pop_self _ _)
      · rw [toClients_modify]
        exact Or.inl hget

/-- `_handle_io`, with both of its parts. -/
theorem relays_handleIo {fd : Fd} (hfd : fd ≠ s.net.serverFd) (event : Mask)
    (recvOut sendOut : Except SockError ℕ) :
    Relays s.toClients (s.handleIo fd event recvOut sendOut).state.toClients := by
  unfold handleIo
  split
  · exact .refl _
  · next sock hget =>
    split_ifs with hfailed
    · exact .close hfd
    · refine .of_linked fun h => .andThen toClients ?_ ?_
      · exact relays_handleRead hfd hget recvOut
      · have hserver := (relays_handleRead hfd hget recvOut h).2.1
        refine relays_handleWrite ?_ (get_handleRead hget recvOut) sendOut
        rw [hserver]
        exact hfd
    · exact .andThen toClients (relays_handleRead hfd hget recvOut) (.refl _)
    · exact .andThen toClients (.refl _) (relays_handleWrite hfd (Or.inl hget) sendOut)
    · exact .andThen toClients (.refl _) (.refl _)

/-- `_cleanup`. -/
theorem relays_cleanup (s : PollEchoServer) : Relays s.toClients s.cleanup.toClients :=
  relays_closeAll (fun _ _ hfd => .close hfd) s

/-- The end of a call, and of the loop if it raised. -/
theorem relays_afterCall {r : Ran PollEchoServer} (h : Relays s.toClients r.state.toClients) :
    Relays s.toClients (afterCall r).2.server.toClients := by
  rw [afterCall]
  split
  · exact h.trans (relays_cleanup _)
  · exact h

/-- Every step of the loop relays. -/
theorem relays_step {l l' : Loop} {a : Action} {e : Event} (h : step l a = some (e, l')) :
    Relays l.server.toClients l'.server.toClients := by
  cases a with
  | clientSend c data =>
      cases h
      exact .clientSend _ c data
  | stop =>
      rw [step] at h
      split_ifs at h
      cases h
      exact relays_cleanup _
  | accept event out =>
      unfold step at h
      dsimp only at h
      split_ifs at h
      split at h
      · obtain rfl : (afterCall _).2 = l' := congrArg Prod.snd (Option.some.inj h)
        exact relays_afterCall (relays_acceptClient event _ fun _ _ heq => by cases heq)
      · split_ifs at h with hfree
        obtain rfl : (afterCall _).2 = l' := congrArg Prod.snd (Option.some.inj h)
        exact relays_afterCall (relays_acceptClient event _ fun _ _ heq => by
          cases heq
          exact hfree)
  | io fd event recvOut sendOut =>
      rw [step] at h
      split_ifs at h with _ hfd
      obtain rfl : (afterCall _).2 = l' := congrArg Prod.snd (Option.some.inj h)
      exact relays_afterCall (relays_handleIo hfd event recvOut sendOut)

/-! ## Registration -/

/-- The fds registered with the poller are the keys of `_fd_to_sock`. -/
def RegisteredOk (s : PollEchoServer) : Prop :=
  ∀ fd, (s.registered.get fd).isSome = (s.fdToSock.get fd).isSome

/-- The outcomes of data, end of stream, resets and partial sends, and of accepts. -/
def Action.Ordinary : Action → Prop
  | .accept _ (.error e) => e = .blockingIOError
  | .io _ _ recvOut sendOut =>
      (∀ e, recvOut = .error e → e.endsRecv = true) ∧
        ∀ e, sendOut = .error e → e.endsSend = true
  | _ => True

/-- The event is not one that carries `POLLIN` and `POLLOUT` and whose `recv` ends the
connection. -/
def Action.KeepsForWrite (s : PollEchoServer) : Action → Prop
  | .io fd event recvOut _ =>
      event.failed = false → event.readable = true → event.writable = true →
        ¬ s.ReadEnds fd recvOut
  | _ => True

/-- At the start the listening socket is registered. -/
theorem registeredOk_start (serverFd : Fd) : RegisteredOk (start serverFd) := by
  intro fd
  show ((Dict.empty.set serverFd Mask.pollIn).get fd).isSome =
    ((Dict.empty.set serverFd Sock.server).get fd).isSome
  rw [Dict.get_set, Dict.get_set]
  split_ifs <;> rfl

/-- An open fd is registered, so `modify` does not raise. -/
theorem RegisteredOk.modify (h : RegisteredOk s) {fd : Fd}
    (hkey : (s.fdToSock.get fd).isSome = true) (mask : Mask) :
    (s.modify fd mask).raised = none ∧ RegisteredOk (s.modify fd mask).state := by
  have hreg : (s.registered.get fd).isSome = true := (h fd).trans hkey
  rw [modify_of_registered hreg]
  refine ⟨rfl, fun fd' => ?_⟩
  show ((s.registered.set fd mask).get fd').isSome = (s.fdToSock.get fd').isSome
  rw [Dict.get_set]
  split_ifs with heq
  · rw [heq, hkey]
    rfl
  · exact h fd'

/-- A new connection is registered. -/
theorem RegisteredOk.acceptClient (h : RegisteredOk s) (event : Mask)
    {out : Except SockError (Fd × Bytes)} (hord : (Action.accept event out).Ordinary) :
    (s.acceptClient event out).raised = none ∧ RegisteredOk (s.acceptClient event out).state := by
  unfold PollEchoServer.acceptClient
  split_ifs
  · exact ⟨rfl, h⟩
  · match out, hord with
    | .error .blockingIOError, _ => exact ⟨rfl, h⟩
    | .ok (fd, data), _ =>
        refine ⟨rfl, fun fd' => ?_⟩
        show ((s.registered.set fd .pollIn).get fd').isSome =
          ((s.fdToSock.set fd _).get fd').isSome
        rw [Dict.get_set, Dict.get_set]
        split_ifs
        · rfl
        · exact h fd'

/-- A closed connection is not. -/
theorem RegisteredOk.closeClient (h : RegisteredOk s) (fd : Fd) :
    RegisteredOk (s.closeClient fd) := by
  intro fd'
  show ((if (s.fdToSock.get fd).isSome then s.registered.pop fd else s.registered).get
    fd').isSome = ((s.fdToSock.pop fd).get fd').isSome
  rw [Dict.get_pop]
  by_cases heq : fd' = fd
  · rw [if_pos heq, heq]
    split_ifs with hkey
    · rw [Dict.get_pop_self]
      rfl
    · rw [h fd]
      simpa using hkey
  · rw [if_neg heq]
    split_ifs
    · rw [Dict.get_pop_of_ne _ heq]
      exact h fd'
    · exact h fd'

/-- `_handle_read` when the connection ends. -/
theorem handleRead_of_ends {fd : Fd} {c : Conn} (hget : s.fdToSock.get fd = some (.client c))
    {out : Except SockError ℕ} (hends : s.ReadEnds fd out) :
    s.handleRead fd (.client c) out = { state := s.closeClient fd } := by
  obtain ⟨c', hget', hend⟩ := hends
  rw [hget] at hget'
  cases hget'
  cases out with
  | error e => exact if_pos hend
  | ok k => exact if_pos hend

/-- `_handle_read` when it does not. -/
theorem RegisteredOk.handleRead (h : RegisteredOk s) {fd : Fd} {c : Conn}
    (hget : s.fdToSock.get fd = some (.client c)) {out : Except SockError ℕ}
    (hord : ∀ e, out = .error e → e.endsRecv = true) (hends : ¬ s.ReadEnds fd out) :
    (s.handleRead fd (.client c) out).raised = none ∧
      RegisteredOk (s.handleRead fd (.client c) out).state ∧
      (s.handleRead fd (.client c) out).state.fdToSock = s.fdToSock := by
  cases out with
  | error e => exact absurd ⟨c, hget, hord e rfl⟩ hends
  | ok k =>
      have hdata : s.net.recvData c k ≠ [] := fun hdata => hends ⟨c, hget, hdata⟩
      unfold PollEchoServer.handleRead
      dsimp only
      rw [if_neg hdata, toClients_modify]
      obtain ⟨hraised, hreg⟩ :=
        RegisteredOk.modify (s := ⟨s.toClients.receive fd c k, s.registered, _⟩) h
          (congrArg Option.isSome hget) .pollInOut
      exact ⟨hraised, hreg, rfl⟩

/-- `_handle_write` for an open client. -/
theorem RegisteredOk.handleWrite (h : RegisteredOk s) {fd : Fd} {c : Conn}
    (hget : s.fdToSock.get fd = some (.client c)) {out : Except SockError ℕ}
    (hord : ∀ e, out = .error e → e.endsSend = true) :
    (s.handleWrite fd (.client c) out).raised = none ∧
      RegisteredOk (s.handleWrite fd (.client c) out).state := by
  have hkey : (s.fdToSock.get fd).isSome = true := by
    rw [hget]
    rfl
  unfold PollEchoServer.handleWrite
  split
  · exact absurd ‹Sock.client c = _› (by simp)
  · next b rest c' hbuf hsock =>
    cases hsock
    split
    · next e =>
      rw [if_pos (hord e rfl)]
      exact ⟨rfl, h.closeClient fd⟩
    · dsimp only
      split_ifs
      · exact ⟨rfl, h⟩
      · exact RegisteredOk.modify
          (s := ⟨s.toClients.flush fd c (b :: rest) _, s.registered, s.recvBufs⟩) h hkey .pollIn
      · exact ⟨rfl, h⟩
  · exact h.modify hkey .pollIn

/-- `_handle_write` for a client that `_handle_read` has just closed. -/
theorem handleWrite_of_closed (h : RegisteredOk s) (fd : Fd) (sock : Sock)
    (out : Except SockError ℕ) :
    ((s.closeClient fd).handleWrite fd sock out).raised = some .other := by
  have hbuf : (s.closeClient fd).sendBufs.get fd = none := Dict.get_pop_self _ _
  have hunregistered : ((s.closeClient fd).registered.get fd).isSome = false := by
    rw [h.closeClient fd fd]
    exact congrArg Option.isSome (Dict.get_pop_self _ _)
  unfold handleWrite
  rw [hbuf]
  dsimp only
  rw [modify_of_unregistered hunregistered]

/-- **One event.**  An ordinary event raises nothing if and only if it does not close the
client before its `POLLOUT` is handled; then the registered fds stay the keys. -/
theorem registeredOk_handleIo (h : RegisteredOk s) (hlinked : s.Linked) {fd : Fd}
    (hfd : fd ≠ s.net.serverFd) (event : Mask) {recvOut sendOut : Except SockError ℕ}
    (hord : (Action.io fd event recvOut sendOut).Ordinary) :
    ((s.handleIo fd event recvOut sendOut).raised = none ↔
        (Action.io fd event recvOut sendOut).KeepsForWrite s) ∧
      ((s.handleIo fd event recvOut sendOut).raised = none →
        RegisteredOk (s.handleIo fd event recvOut sendOut).state) := by
  rcases hlinked.sock_cases hfd with hget | ⟨c, hget⟩
  · have hrun : s.handleIo fd event recvOut sendOut = { state := s } := by
      unfold handleIo
      rw [hget]
    rw [hrun]
    refine ⟨⟨fun _ _ _ _ hends => ?_, fun _ => rfl⟩, fun _ => h⟩
    obtain ⟨c, hc, -⟩ := hends
    rw [hget] at hc
    cases hc
  · have hrun : s.handleIo fd event recvOut sendOut =
        if event.failed then { state := s.closeClient fd }
        else
          (if event.readable then s.handleRead fd (.client c) recvOut
            else { state := s }).andThen
            fun s => if event.writable then s.handleWrite fd (.client c) sendOut
              else { state := s } := by
      unfold handleIo
      rw [hget]
    -- what `POLLOUT` does in a state that still has the client
    have hout : ∀ s' : PollEchoServer, RegisteredOk s' → s'.fdToSock = s.fdToSock →
        (if event.writable then s'.handleWrite fd (.client c) sendOut
          else { state := s' }).raised = none ∧
        RegisteredOk (if event.writable then s'.handleWrite fd (.client c) sendOut
          else { state := s' }).state := by
      intro s' hreg hsock
      split_ifs
      · exact hreg.handleWrite (by rw [hsock]; exact hget) hord.2
      · exact ⟨rfl, hreg⟩
    rw [hrun]
    by_cases hfailed : event.failed = true
    · rw [if_pos hfailed]
      exact ⟨⟨fun _ hno => absurd (hfailed.symm.trans hno) (by simp), fun _ => rfl⟩,
        fun _ => h.closeClient fd⟩
    rw [if_neg hfailed]
    by_cases hin : event.readable = true
    · rw [if_pos hin]
      by_cases hends : s.ReadEnds fd recvOut
      · -- closed, so it is the `POLLOUT` bit that decides
        rw [handleRead_of_ends hget hends, Ran.andThen_of_none rfl]
        dsimp only
        split_ifs with hwritable
        · rw [handleWrite_of_closed h]
          refine ⟨⟨fun hno => (by cases hno), fun hkeeps => ?_⟩, fun hno => by cases hno⟩
          exact absurd hends (hkeeps (by simpa using hfailed) hin hwritable)
        · exact ⟨⟨fun _ _ _ hw => absurd hw hwritable, fun _ => rfl⟩, fun _ => h.closeClient fd⟩
      · obtain ⟨hraised, hreg, hsock⟩ := h.handleRead hget hord.1 hends
        rw [Ran.andThen_of_none hraised]
        obtain ⟨hraised', hreg'⟩ := hout _ hreg hsock
        exact ⟨⟨fun _ _ _ _ => hends, fun _ => hraised'⟩, fun _ => hreg'⟩
    · rw [if_neg hin, Ran.andThen_of_none rfl]
      obtain ⟨hraised', hreg'⟩ := hout s h rfl
      exact ⟨⟨fun _ _ hr => absurd hr hin, fun _ => hraised'⟩, fun _ => hreg'⟩

/-- An ordinary step from a state in order: the loop ends by `stop` only, if and only if
the event does not close the client before its `POLLOUT` is handled. -/
theorem registeredOk_step {l l' : Loop} (h : RegisteredOk l.server) (hlinked : l.server.Linked)
    {a : Action} {e : Event} (hord : a.Ordinary) (hs : step l a = some (e, l')) :
    ((∀ x, e ≠ .handlerError x) ↔ a.KeepsForWrite l.server) ∧
      (l'.running = true → RegisteredOk l'.server) := by
  have hafter : ∀ r : Ran PollEchoServer, some (afterCall r) = some (e, l') →
      (r.raised = none → RegisteredOk r.state) →
      ((∀ x, e ≠ .handlerError x) ↔ r.raised = none) ∧
        (l'.running = true → RegisteredOk l'.server) := by
    intro r hr hreg
    unfold afterCall at hr
    split at hr
    · next x hx =>
      cases hr
      refine ⟨⟨fun hno => absurd rfl (hno x), fun hno => ?_⟩, fun hrun => by cases hrun⟩
      rw [hx] at hno
      cases hno
    · next hx =>
      cases hr
      exact ⟨⟨fun _ => hx, fun _ x => by simp⟩, fun _ => hreg hx⟩
  cases a with
  | clientSend c data =>
      cases hs
      exact ⟨⟨fun _ => trivial, fun _ x => by simp⟩, fun _ => h⟩
  | stop =>
      rw [step] at hs
      split_ifs at hs
      cases hs
      exact ⟨⟨fun _ => trivial, fun _ x => by simp⟩, fun hrun => by cases hrun⟩
  | accept event out =>
      obtain ⟨hraised, hreg⟩ := h.acceptClient event hord
      have hcall : some (afterCall (l.server.acceptClient event out)) = some (e, l') := by
        unfold step at hs
        dsimp only at hs
        split_ifs at hs
        split at hs
        · exact hs
        · split_ifs at hs
          exact hs
      obtain ⟨hiff, hrun⟩ := hafter _ hcall fun _ => hreg
      exact ⟨⟨fun _ => trivial, fun _ => hiff.mpr hraised⟩, hrun⟩
  | io fd event recvOut sendOut =>
      rw [step] at hs
      split_ifs at hs with _ hfd
      obtain ⟨hraised, hreg⟩ := registeredOk_handleIo h hlinked hfd event hord
      obtain ⟨hiff, hrun⟩ := hafter _ hs hreg
      exact ⟨hiff.trans hraised, hrun⟩

/-- Once the loop has ended, only clients act. -/
theorem stopped_step {l l' : Loop} {a : Action} {e : Event} (hrun : l.running = false)
    (hs : step l a = some (e, l')) : l'.running = false ∧ ∀ x, e ≠ .handlerError x := by
  cases a with
  | clientSend c data =>
      cases hs
      exact ⟨hrun, by simp⟩
  | stop => simp [step, hrun] at hs
  | accept event out => cases out <;> simp [step, hrun] at hs
  | io fd event recvOut sendOut => simp [step, hrun] at hs

/-- **Registration discipline.**  In a run of ordinary events none of which closes the
client before its `POLLOUT` is handled, the fds registered with the poller are the keys
of `_fd_to_sock` and no exception leaves a handler; and the next event raises nothing if
and only if it is of that kind. -/
theorem run_registered {serverFd : Fd} {h : List Event} {l : Loop}
    (hr : Run step (fun l a => a.Ordinary ∧ a.KeepsForWrite l.server) ⟨start serverFd, true⟩ h l) :
    (l.running = true → RegisteredOk l.server) ∧ (∀ x ∈ h, ∀ e, x ≠ .handlerError e) ∧
      (l.running = true → ∀ a e l', a.Ordinary → step l a = some (e, l') →
        ((∀ x, e ≠ .handlerError x) ↔ a.KeepsForWrite l.server)) := by
  have hlinked : ∀ {h : List Event} {l : Loop},
      Run step (fun l a => a.Ordinary ∧ a.KeepsForWrite l.server) ⟨start serverFd, true⟩ h l →
        l.server.Linked := fun hr =>
    (run_echoes (fun l : Loop => l.server.toClients) serverFd rfl
      (fun _ _ _ _ => relays_step) hr).1
  have hinv : (l.running = true → RegisteredOk l.server) ∧
      ∀ x ∈ h, ∀ e, x ≠ .handlerError e := by
    refine Run.invariant_running Loop.running (fun l => RegisteredOk l.server)
      (fun x => ∀ e, x ≠ .handlerError e) (registeredOk_start serverFd) ?_ ?_ hr
    · exact fun l a e l' hrun hs => stopped_step hrun hs
    · intro h l a e l' hr _ hreg hok hs
      obtain ⟨hiff, hreg'⟩ := registeredOk_step hreg (hlinked hr) hok.1 hs
      exact ⟨hreg', hiff.mpr hok.2⟩
  exact ⟨hinv.1, hinv.2, fun hrun a e l' hord hs =>
    (registeredOk_step (hinv.1 hrun) (hlinked hr) hord hs).1⟩

/-- A client connects, sends a byte, gets it back and disconnects. -/
theorem run_registered_echo :
    ∃ (h : List Event) (l : Loop), (h.length = 4 ∧ (l.server.net.stream 0).sent = [65]) ∧
      RegisteredOk l.server ∧ ∀ x ∈ h, ∀ e, x ≠ .handlerError e := by
  have hr : Run step (fun l a => a.Ordinary ∧ a.KeepsForWrite l.server) ⟨start 3, true⟩ _ _ :=
    (((Run.nil.snoc (a := Action.accept .pollIn (.ok (7, [97]))) ⟨trivial, trivial⟩ rfl).snoc
      (a := Action.io 7 .pollIn (.ok 1) (.ok 0)) ⟨by simp [Action.Ordinary],
        fun _ _ hw => by cases hw⟩ rfl).snoc
      (a := Action.io 7 { writable := true } (.ok 0) (.ok 1)) ⟨by simp [Action.Ordinary],
        fun _ hin => by cases hin⟩ rfl).snoc
      (a := Action.io 7 .pollIn (.ok 0) (.ok 0)) ⟨by simp [Action.Ordinary],
        fun _ _ hw => by cases hw⟩ rfl
  obtain ⟨hreg, hevents, -⟩ := run_registered hr
  exact ⟨_, _, ⟨rfl, rfl⟩, hreg rfl, hevents⟩

/-- **A disconnect ends the loop.**  A client sends a byte and disconnects before its reply
is flushed: the event with `POLLIN` and `POLLOUT` closes it, then calls `poller.modify` on
its fd, and the exception ends the loop with another client still connected. -/
theorem not_registered :
    ∃ (h : List Event) (l l' : Loop) (a : Action),
      Run step (fun _ a => a.Ordinary) ⟨start 3, true⟩ h l ∧ l.running = true ∧
      (l.server.net.stream 1).isOpen = true ∧ a.Ordinary ∧
      step l a = some (.handlerError .other, l') ∧ l'.running = false := by
  have hr : Run step (fun _ a => a.Ordinary) ⟨start 3, true⟩ _ _ :=
    ((Run.nil.snoc (a := Action.accept .pollIn (.ok (7, [97]))) trivial rfl).snoc
      (a := Action.accept .pollIn (.ok (8, []))) trivial rfl).snoc
      (a := Action.io 7 .pollIn (.ok 1) (.ok 0)) (by simp [Action.Ordinary]) rfl
  exact ⟨_, _, _, .io 7 .pollInOut (.ok 0) (.ok 0), hr, rfl, rfl, by simp [Action.Ordinary], rfl,
    rfl⟩

end PollEchoServer

end Io

/-
# Sockets and client tables (`python/io_multiplexing`)

What the select, poll and epoll servers share.  The kernel's side is `Net`: the
connections ever accepted, numbered in order of acceptance, each with the fd number it
was given, the bytes that went through it and whether its socket is open.  An fd number
is free again once its socket is closed, and a later connection may get it.

The servers' side is `Clients`: `fd_to_sock` and `_send_bufs`, and the four things the
handlers do to them (`addClient`, `queue`, `flush`, `close`).  `Clients.Linked` ties the two
sides together, and under it each of the four is a step of a relay (`Clients.lines`).

A handler that calls `recv`, `send` or `accept` is given what the kernel answers: for
`recv` the number of bytes it hands over (none at the end of the stream), for `send` the
number it takes, or an error.
-/
import Cocurrency.Lib.Dict
import Cocurrency.Lib.Relay
import Cocurrency.Lib.Run
import Mathlib.Tactic.SplitIfs

namespace Io

/-! ## Bytes and errors -/

/-- A file descriptor, as its number. -/
abbrev Fd := ℕ

/-- The number of a connection, in order of acceptance. -/
abbrev Conn := ℕ

/-- What is sent and received. -/
abbrev Bytes := List UInt8

/-- One byte of `bytes.upper()`: ASCII only. -/
def upperByte (b : UInt8) : UInt8 := if 97 ≤ b ∧ b ≤ 122 then b - 32 else b

/-- `data.upper()`. -/
def upper (data : Bytes) : Bytes := data.map upperByte

/-- The `OSError`s the servers tell apart. -/
inductive SockError where
  | blockingIOError
  | interruptedError
  | connectionResetError
  | connectionAbortedError
  | brokenPipeError
  | other
  deriving DecidableEq, Repr

namespace SockError

/-- Caught by `except (ConnectionResetError, ConnectionAbortedError)`. -/
def endsRecv : SockError → Bool
  | connectionResetError | connectionAbortedError => true
  | _ => false

/-- Caught by `except (ConnectionResetError, BrokenPipeError)`. -/
def endsSend : SockError → Bool
  | connectionResetError | brokenPipeError => true
  | _ => false

end SockError

/-- The event bits that the poll and epoll servers look at, in an interest mask or in a
reported event. -/
structure Mask where
  readable : Bool := false
  writable : Bool := false
  error : Bool := false
  hangup : Bool := false
  deriving DecidableEq, Repr

namespace Mask

/-- `POLLIN`. -/
def pollIn : Mask := { readable := true }

/-- `POLLIN | POLLOUT`. -/
def pollInOut : Mask := { readable := true, writable := true }

/-- `event & (POLLERR | POLLHUP)`. -/
def failed (m : Mask) : Bool := m.error || m.hangup

end Mask

/-- A handler call: the state it leaves, and the exception that left it, if one did. -/
structure Ran (σ : Type) where
  state : σ
  raised : Option SockError := none

/-- Go on with `f` unless an exception was raised. -/
def Ran.andThen {σ : Type} (r : Ran σ) (f : σ → Ran σ) : Ran σ :=
  if r.raised.isSome then r else f r.state

/-- Without an exception the rest is carried out. -/
theorem Ran.andThen_of_none {σ : Type} {r : Ran σ} (h : r.raised = none) (f : σ → Ran σ) :
    r.andThen f = f r.state := by
  rw [Ran.andThen, h]
  rfl

/-! ## The kernel's side -/

/-- A connection. -/
structure Stream where
  fd : Fd
  /-- sent by the client, not received yet -/
  unread : Bytes
  received : Bytes
  sent : Bytes
  /-- is the server's socket open? -/
  isOpen : Bool

/-- The connections, and the fd of the listening socket. -/
structure Net where
  serverFd : Fd
  /-- the number of the next connection -/
  next : Conn
  stream : Conn → Stream

/-- A Python socket object. -/
inductive Sock where
  | server
  | client (c : Conn)
  deriving DecidableEq

/-- `recv(4096)`. -/
def recvSize : ℕ := 4096

namespace Net

/-- A listening socket and no connection yet. -/
def listen (serverFd : Fd) : Net := ⟨serverFd, 0, fun _ => ⟨0, [], [], [], false⟩⟩

/-- No open socket has the fd number. -/
def FdFree (net : Net) (fd : Fd) : Prop :=
  fd ≠ net.serverFd ∧ ∀ c < net.next, (net.stream c).isOpen = true → (net.stream c).fd ≠ fd

instance (net : Net) (fd : Fd) : Decidable (net.FdFree fd) := by
  unfold FdFree
  infer_instance

/-- Connection `c` changes. -/
def setStream (net : Net) (c : Conn) (st : Stream) : Net :=
  { net with stream := Function.update net.stream c st }

/-- The connection that is changed. -/
@[simp] theorem stream_setStream_self (net : Net) (c : Conn) (st : Stream) :
    (net.setStream c st).stream c = st := Function.update_self ..

theorem stream_setStream_of_ne (net : Net) {c d : Conn} (st : Stream) (h : d ≠ c) :
    (net.setStream c st).stream d = net.stream d := Function.update_of_ne h ..

/-- A change that keeps a field of connection `c` keeps that field of all. -/
theorem field_setStream {β : Type} (field : Stream → β) (net : Net) {c : Conn} {st : Stream}
    (h : field st = field (net.stream c)) (d : Conn) :
    field ((net.setStream c st).stream d) = field (net.stream d) := by
  by_cases hd : d = c
  · rw [hd, stream_setStream_self]
    exact h
  · rw [stream_setStream_of_ne net st hd]

/-- The client of connection `c` sends `data`. -/
def clientSend (net : Net) (c : Conn) (data : Bytes) : Net :=
  net.setStream c { net.stream c with unread := (net.stream c).unread ++ data }

/-- `accept()` on the listening socket: connection `net.next` gets the number `fd`; its
client has sent `data` already. -/
def accept (net : Net) (fd : Fd) (data : Bytes) : Net :=
  { net.setStream net.next ⟨fd, data, [], [], true⟩ with next := net.next + 1 }

/-- What `recv(4096)` returns when the kernel hands over `k` bytes. -/
def recvData (net : Net) (c : Conn) (k : ℕ) : Bytes :=
  (net.stream c).unread.take (min k recvSize)

/-- The connections after that `recv`. -/
def recv (net : Net) (c : Conn) (k : ℕ) : Net :=
  net.setStream c
    { net.stream c with
      unread := (net.stream c).unread.drop (min k recvSize)
      received := (net.stream c).received ++ net.recvData c k }

/-- `send(buf)`, of which the kernel takes `n` bytes. -/
def send (net : Net) (c : Conn) (buf : Bytes) (n : ℕ) : Net :=
  net.setStream c { net.stream c with sent := (net.stream c).sent ++ buf.take n }

/-- `sock.close()`. -/
def close (net : Net) : Sock → Net
  | .server => net
  | .client c => net.setStream c { net.stream c with isOpen := false }

end Net

/-- The connections that an `accept` loop is given have fd numbers that are free, none
twice. -/
def FreshFds (net : Net) (conns : List (Fd × Bytes)) : Prop :=
  (conns.map Prod.fst).Nodup ∧ ∀ x ∈ conns, net.FdFree x.1

instance (net : Net) (conns : List (Fd × Bytes)) : Decidable (FreshFds net conns) := by
  unfold FreshFds
  infer_instance

/-- Accepting one connection leaves the other free fd numbers free. -/
theorem FreshFds.tail {net : Net} {fd : Fd} {data : Bytes} {rest : List (Fd × Bytes)}
    (h : FreshFds net ((fd, data) :: rest)) : FreshFds (net.accept fd data) rest := by
  obtain ⟨hnodup, hfree⟩ := h
  rw [List.map_cons, List.nodup_cons] at hnodup
  refine ⟨hnodup.2, fun x hx => ?_⟩
  obtain ⟨hserver, hother⟩ := hfree x (List.mem_cons_of_mem _ hx)
  refine ⟨hserver, fun c hc ho => ?_⟩
  by_cases hnew : c = net.next
  · subst hnew
    have hstream : (net.accept fd data).stream net.next = ⟨fd, data, [], [], true⟩ :=
      Net.stream_setStream_self _ _ _
    rw [hstream]
    intro heq
    exact hnodup.1 (List.mem_map.mpr ⟨x, hx, heq.symm⟩)
  · have hstream : (net.accept fd data).stream c = net.stream c :=
      Net.stream_setStream_of_ne _ _ hnew
    rw [hstream] at ho ⊢
    exact hother c (Nat.lt_of_le_of_ne (Nat.lt_succ_iff.mp hc) hnew) ho

/-! ## The servers' side -/

/-- The tables every server keeps. -/
structure Clients where
  net : Net
  fdToSock : Dict Fd Sock
  sendBufs : Dict Fd Bytes

namespace Clients

/-- The tables of a server that listens, with the listening socket among the sockets. -/
def listen (serverFd : Fd) : Clients where
  net := .listen serverFd
  fdToSock := Dict.empty.set serverFd .server
  sendBufs := Dict.empty

/-- A new connection: `fd_to_sock[fd] = conn`, `_send_bufs[fd] = b""`. -/
def addClient (s : Clients) (fd : Fd) (data : Bytes) : Clients where
  net := s.net.accept fd data
  fdToSock := s.fdToSock.set fd (.client s.net.next)
  sendBufs := s.sendBufs.set fd []

/-- `_send_bufs.setdefault(fd, b"")`, then `_send_bufs[fd] += data.upper()`. -/
def queue (bufs : Dict Fd Bytes) (fd : Fd) (data : Bytes) : Dict Fd Bytes :=
  (bufs.setDefault fd []).set fd (((bufs.setDefault fd []).get fd).getD [] ++ upper data)

/-- `recv` hands over `k` bytes of connection `c`, which are queued for its fd. -/
def receive (s : Clients) (fd : Fd) (c : Conn) (k : ℕ) : Clients :=
  { s with
    net := s.net.recv c k
    sendBufs := queue s.sendBufs fd (s.net.recvData c k) }

/-- `send(buf)` takes `n` bytes; `_send_bufs[fd] = buf[n:]`. -/
def flush (s : Clients) (fd : Fd) (c : Conn) (buf : Bytes) (n : ℕ) : Clients :=
  { s with
    net := s.net.send c buf n
    sendBufs := s.sendBufs.set fd (buf.drop n) }

/-- Closing a client: `fd_to_sock.pop(fd)`, `sock.close()`, `_send_bufs.pop(fd)`. -/
def close (s : Clients) (fd : Fd) : Clients where
  net :=
    match s.fdToSock.get fd with
    | some sock => s.net.close sock
    | none => s.net
  fdToSock := s.fdToSock.pop fd
  sendBufs := s.sendBufs.pop fd

/-- The client of connection `c` sends `data`. -/
def clientSend (s : Clients) (c : Conn) (data : Bytes) : Clients :=
  { s with net := s.net.clientSend c data }

/-- A `recv` for `fd` ends the connection: by the end of the stream or by a reset. -/
def ReadEnds (s : Clients) (fd : Fd) (out : Except SockError ℕ) : Prop :=
  ∃ c, s.fdToSock.get fd = some (.client c) ∧
    match out with
    | .error e => e.endsRecv = true
    | .ok k => s.net.recvData c k = []

/-- `_send_bufs.get(fd)`, with no entry counting as an empty one. -/
def sendBuf (s : Clients) (fd : Fd) : Bytes := (s.sendBufs.get fd).getD []

/-! ## The tables and the kernel agree -/

/-- `fd_to_sock` holds the listening socket and exactly the open connections, each under
its fd number, and `_send_bufs` has an entry for each of these. -/
structure Linked (s : Clients) : Prop where
  sock_of_open : ∀ c, (s.net.stream c).isOpen = true →
    s.fdToSock.get (s.net.stream c).fd = some (.client c)
  open_of_sock : ∀ fd c, s.fdToSock.get fd = some (.client c) →
    (s.net.stream c).isOpen = true ∧ (s.net.stream c).fd = fd
  server_iff : ∀ fd, s.fdToSock.get fd = some .server ↔ fd = s.net.serverFd
  not_yet : ∀ c, s.net.next ≤ c → (s.net.stream c).isOpen = false
  buf_iff : ∀ fd, (s.sendBufs.get fd).isSome = true ↔ ∃ c, s.fdToSock.get fd = some (.client c)

namespace Linked

variable {s s' : Clients}

/-- At the start only the listening socket is open. -/
theorem listen (serverFd : Fd) : Linked (.listen serverFd) := by
  have hget : ∀ fd, (Clients.listen serverFd).fdToSock.get fd =
      if fd = serverFd then some .server else none := fun fd => Dict.get_set _ _ _ _
  refine ⟨fun c ho => absurd ho Bool.false_ne_true, fun fd c h => ?_, fun fd => ?_,
    fun _ _ => rfl, fun fd => ?_⟩
  · rw [hget] at h
    split_ifs at h
    cases h
  · rw [hget]
    show _ ↔ fd = serverFd
    split_ifs with h <;> simp [h]
  · rw [hget]
    show (none : Option Bytes).isSome = true ↔ _
    split_ifs <;> simp

/-- The agreement is about sockets, fd numbers, `fd_to_sock` and the keys of `_send_bufs`
only. -/
theorem congr (h : Linked s) (hsock : s'.fdToSock = s.fdToSock)
    (hserver : s'.net.serverFd = s.net.serverFd) (hnext : s'.net.next = s.net.next)
    (hfd : ∀ c, (s'.net.stream c).fd = (s.net.stream c).fd)
    (hopen : ∀ c, (s'.net.stream c).isOpen = (s.net.stream c).isOpen)
    (hbuf : ∀ fd, (s'.sendBufs.get fd).isSome = (s.sendBufs.get fd).isSome) : Linked s' := by
  constructor
  · intro c ho
    rw [hsock, hfd]
    exact h.sock_of_open c (by rw [← hopen]; exact ho)
  · intro fd c hget
    rw [hsock] at hget
    rw [hopen, hfd]
    exact h.open_of_sock fd c hget
  · intro fd
    rw [hsock, hserver]
    exact h.server_iff fd
  · intro c hc
    rw [hopen]
    exact h.not_yet c (by rw [← hnext]; exact hc)
  · intro fd
    rw [hbuf, hsock]
    exact h.buf_iff fd

/-- An open connection has been accepted. -/
theorem lt_next (h : Linked s) {c : Conn} (ho : (s.net.stream c).isOpen = true) :
    c < s.net.next := by
  by_contra hge
  rw [h.not_yet c (Nat.le_of_not_lt hge)] at ho
  cases ho

/-- Two open connections have different fd numbers. -/
theorem fd_injective (h : Linked s) {c d : Conn} (hc : (s.net.stream c).isOpen = true)
    (hd : (s.net.stream d).isOpen = true)
    (hfd : (s.net.stream c).fd = (s.net.stream d).fd) : c = d := by
  have hsame := h.sock_of_open c hc
  rw [hfd, h.sock_of_open d hd] at hsame
  exact (Sock.client.inj (Option.some.inj hsame)).symm

/-- A connection that is not `c` is not open under the fd number of `c`. -/
theorem fd_ne (h : Linked s) {fd : Fd} {c d : Conn} (hc : s.fdToSock.get fd = some (.client c))
    (hd : (s.net.stream d).isOpen = true) (hne : d ≠ c) : (s.net.stream d).fd ≠ fd := by
  obtain ⟨ho, hfd⟩ := h.open_of_sock fd c hc
  intro heq
  exact hne (h.fd_injective hd ho (heq.trans hfd.symm))

end Linked

/-! ## The tables as a relay -/

/-- Connection `c` as a line of a relay: its queue is the send buffer of its fd. -/
def line (s : Clients) (c : Conn) : Relay.Line UInt8 UInt8 where
  unread := (s.net.stream c).unread
  received := (s.net.stream c).received
  queued := if (s.net.stream c).isOpen then s.sendBuf (s.net.stream c).fd else []
  sent := (s.net.stream c).sent
  isOpen := (s.net.stream c).isOpen

/-- The connections as lines of a relay. -/
def lines (s : Clients) : Conn → Relay.Line UInt8 UInt8 := s.line

/-- The lines after one of them has changed. -/
theorem lines_eq_update {s s' : Clients} {c : Conn} {l : Relay.Line UInt8 UInt8}
    (hother : ∀ d, d ≠ c → s'.line d = s.line d) (hself : s'.line c = l) :
    s'.lines = Function.update s.lines c l := by
  funext d
  by_cases hd : d = c
  · rw [hd, Function.update_self]
    exact hself
  · rw [Function.update_of_ne hd]
    exact hother d hd

/-- A connection whose stream and send buffer stay is the line it was. -/
theorem line_congr {s s' : Clients} {d : Conn} (hstream : s'.net.stream d = s.net.stream d)
    (hbuf : (s.net.stream d).isOpen = true →
      s'.sendBufs.get (s.net.stream d).fd = s.sendBufs.get (s.net.stream d).fd) :
    s'.line d = s.line d := by
  rw [line, line, hstream]
  congr 1
  split_ifs with ho
  · rw [sendBuf, sendBuf, hbuf ho]
  · rfl

/-- The send buffer of the fd gets what the data becomes. -/
theorem get_queue_self (bufs : Dict Fd Bytes) (fd : Fd) (data : Bytes) :
    (queue bufs fd data).get fd = some ((bufs.get fd).getD [] ++ upper data) := by
  rw [queue, Dict.get_set_self]
  cases hget : bufs.get fd with
  | some buf => rw [Dict.setDefault_of_get _ hget, hget]
  | none =>
      rw [Dict.setDefault, hget]
      simp

theorem get_queue_of_ne (bufs : Dict Fd Bytes) {fd fd' : Fd} (data : Bytes) (h : fd' ≠ fd) :
    (queue bufs fd data).get fd' = bufs.get fd' := by
  rw [queue, Dict.get_set_of_ne _ _ h, Dict.setDefault]
  split_ifs
  · rfl
  · rw [Dict.get_set_of_ne _ _ h]

section Ops

variable {s : Clients}

/-- What a client sends is nothing to the tables. -/
theorem Linked.clientSend (h : Linked s) (c : Conn) (data : Bytes) :
    Linked (s.clientSend c data) :=
  h.congr rfl rfl rfl (Net.field_setStream Stream.fd _ rfl)
    (Net.field_setStream Stream.isOpen _ rfl) fun _ => rfl

/-- What a client sends is still unread. -/
theorem moves_clientSend (s : Clients) (c : Conn) (data : Bytes) :
    Relay.Moves upperByte s.lines (s.clientSend c data).lines := by
  have hlines : (s.clientSend c data).lines =
      Function.update s.lines c ((s.lines c).offer data) := by
    refine lines_eq_update (fun d hd => ?_) ?_
    · exact line_congr (Net.stream_setStream_of_ne _ _ hd) fun _ => rfl
    · simp only [line, clientSend, Net.clientSend, Net.stream_setStream_self]
      rfl
  rw [hlines]
  exact .single (.offer c data)

/-- The entry for a client is there already, so setting it adds no key. -/
theorem Linked.isSome_of_client (h : Linked s) {fd : Fd} {c : Conn}
    (hget : s.fdToSock.get fd = some (.client c)) : (s.sendBufs.get fd).isSome = true :=
  (h.buf_iff fd).mpr ⟨c, hget⟩

/-- What is received goes into a send buffer, and the tables stay linked. -/
theorem Linked.receive (h : Linked s) {fd : Fd} {c : Conn}
    (hget : s.fdToSock.get fd = some (.client c)) (k : ℕ) : Linked (s.receive fd c k) := by
  refine h.congr rfl rfl rfl (Net.field_setStream Stream.fd _ rfl)
    (Net.field_setStream Stream.isOpen _ rfl) fun fd' => ?_
  by_cases hfd : fd' = fd
  · rw [hfd, h.isSome_of_client hget]
    exact congrArg Option.isSome (get_queue_self _ _ _)
  · exact congrArg Option.isSome (get_queue_of_ne _ _ hfd)

/-- What is received is taken from what is unread. -/
theorem moves_receive (h : Linked s) {fd : Fd} {c : Conn}
    (hget : s.fdToSock.get fd = some (.client c)) (k : ℕ) :
    Relay.Moves upperByte s.lines (s.receive fd c k).lines := by
  obtain ⟨hopen, hfd⟩ := h.open_of_sock fd c hget
  have hlines : (s.receive fd c k).lines =
      Function.update s.lines c ((s.lines c).receive upperByte (min k recvSize)) := by
    refine lines_eq_update (fun d hd => ?_) ?_
    · exact line_congr (Net.stream_setStream_of_ne _ _ hd) fun ho =>
        get_queue_of_ne _ _ (h.fd_ne hget ho hd)
    · simp only [line, receive, Net.recv, Net.stream_setStream_self, hopen, hfd, sendBuf,
        get_queue_self]
      simp only [lines, line, Relay.Line.receive, hopen, hfd, sendBuf]
      rfl
  rw [hlines]
  exact .single (.receive c _)

/-- What is sent leaves the send buffer, and the tables stay linked. -/
theorem Linked.flush (h : Linked s) {fd : Fd} {c : Conn}
    (hget : s.fdToSock.get fd = some (.client c)) (buf : Bytes) (n : ℕ) :
    Linked (s.flush fd c buf n) := by
  refine h.congr rfl rfl rfl (Net.field_setStream Stream.fd _ rfl)
    (Net.field_setStream Stream.isOpen _ rfl) fun fd' => ?_
  by_cases hfd : fd' = fd
  · rw [hfd, h.isSome_of_client hget]
    exact congrArg Option.isSome (Dict.get_set_self _ _ _)
  · exact congrArg Option.isSome (Dict.get_set_of_ne _ _ hfd)

/-- What is sent is taken from the front of the send buffer. -/
theorem moves_flush (h : Linked s) {fd : Fd} {c : Conn}
    (hget : s.fdToSock.get fd = some (.client c)) {buf : Bytes}
    (hbuf : s.sendBufs.get fd = some buf) (n : ℕ) :
    Relay.Moves upperByte s.lines (s.flush fd c buf n).lines := by
  obtain ⟨hopen, hfd⟩ := h.open_of_sock fd c hget
  have hlines : (s.flush fd c buf n).lines =
      Function.update s.lines c ((s.lines c).send n) := by
    refine lines_eq_update (fun d hd => ?_) ?_
    · exact line_congr (Net.stream_setStream_of_ne _ _ hd) fun ho =>
        Dict.get_set_of_ne _ _ (h.fd_ne hget ho hd)
    · simp only [line, flush, Net.send, Net.stream_setStream_self, hopen, hfd, sendBuf,
        Dict.get_set_self]
      simp only [lines, line, Relay.Line.send, hopen, hfd, sendBuf, hbuf]
      rfl
  rw [hlines]
  exact .single (.send c n hopen)

/-- A new connection is in all tables. -/
theorem Linked.addClient (h : Linked s) {fd : Fd} (hfree : s.net.FdFree fd) (data : Bytes) :
    Linked (s.addClient fd data) := by
  have hstream : ∀ d, d ≠ s.net.next →
      (s.addClient fd data).net.stream d = s.net.stream d := fun d hd =>
    Net.stream_setStream_of_ne _ _ hd
  have hnew : (s.addClient fd data).net.stream s.net.next = ⟨fd, data, [], [], true⟩ :=
    Net.stream_setStream_self _ _ _
  -- the fd numbers of the open connections are others
  have hother : ∀ c, (s.net.stream c).isOpen = true → (s.net.stream c).fd ≠ fd :=
    fun c ho => hfree.2 c (h.lt_next ho) ho
  constructor
  · intro c ho
    by_cases hc : c = s.net.next
    · rw [hc, hnew]
      exact Dict.get_set_self _ _ _
    · rw [hstream c hc] at ho ⊢
      rw [show (s.addClient fd data).fdToSock.get (s.net.stream c).fd =
        s.fdToSock.get (s.net.stream c).fd from Dict.get_set_of_ne _ _ (hother c ho)]
      exact h.sock_of_open c ho
  · intro fd' c hget
    rw [show (s.addClient fd data).fdToSock.get fd' = _ from Dict.get_set _ _ _ _] at hget
    split_ifs at hget with hfd
    · cases hget
      rw [hnew]
      exact ⟨rfl, hfd.symm⟩
    · have hopen := h.open_of_sock fd' c hget
      -- the number `net.next` has not been used yet
      have hc : c ≠ s.net.next := by
        rintro rfl
        rw [h.not_yet _ (Nat.le_refl _)] at hopen
        exact absurd hopen.1 Bool.false_ne_true
      rw [hstream c hc]
      exact hopen
  · intro fd'
    rw [show (s.addClient fd data).fdToSock.get fd' = _ from Dict.get_set _ _ _ _]
    show _ ↔ fd' = s.net.serverFd
    split_ifs with hfd
    · simp [hfd, hfree.1]
    · exact h.server_iff fd'
  · intro c hc
    have hlt : s.net.next < c := hc
    rw [hstream c (Nat.ne_of_gt hlt)]
    exact h.not_yet c (Nat.le_of_lt hlt)
  · intro fd'
    rw [show (s.addClient fd data).fdToSock.get fd' = _ from Dict.get_set _ _ _ _,
      show (s.addClient fd data).sendBufs.get fd' = _ from Dict.get_set _ _ _ _]
    split_ifs
    · simp
    · exact h.buf_iff fd'

/-- A new connection is a new line. -/
theorem moves_addClient (h : Linked s) {fd : Fd} (hfree : s.net.FdFree fd) (data : Bytes) :
    Relay.Moves upperByte s.lines (s.addClient fd data).lines := by
  have hlines : (s.addClient fd data).lines =
      Function.update s.lines s.net.next (.opened data) := by
    refine lines_eq_update (fun d hd => ?_) ?_
    · refine line_congr (Net.stream_setStream_of_ne _ _ hd) fun ho => ?_
      exact Dict.get_set_of_ne _ _ (hfree.2 d (h.lt_next ho) ho)
    · simp only [line, addClient, Net.accept, Net.stream_setStream_self, sendBuf, Dict.get_set_self]
      rfl
  rw [hlines]
  exact .single (.accept _ _ (h.not_yet _ (Nat.le_refl _)))

/-- `_close_client(fd)` closes the connection that `fd_to_sock` has under `fd`. -/
theorem net_close_of_client {fd : Fd} {c : Conn}
    (hget : s.fdToSock.get fd = some (.client c)) :
    (s.close fd).net = s.net.setStream c { s.net.stream c with isOpen := false } := by
  simp only [close, hget, Net.close]

/-- With no socket under `fd` there is nothing to close. -/
theorem net_close_of_none {fd : Fd} (hget : s.fdToSock.get fd = none) :
    (s.close fd).net = s.net := by
  simp only [close, hget]

/-- Under an fd that is not the listening socket's there is a client or nothing. -/
theorem Linked.sock_cases (h : Linked s) {fd : Fd} (hfd : fd ≠ s.net.serverFd) :
    s.fdToSock.get fd = none ∨ ∃ c, s.fdToSock.get fd = some (.client c) := by
  cases hget : s.fdToSock.get fd with
  | none => exact Or.inl rfl
  | some sock =>
      cases sock with
      | server => exact absurd ((h.server_iff fd).mp hget) hfd
      | client c => exact Or.inr ⟨c, rfl⟩

/-- A key of `fd_to_sock` is the fd number of an open socket. -/
theorem Linked.not_fdFree (h : Linked s) {fd : Fd} (hkey : (s.fdToSock.get fd).isSome = true) :
    ¬ s.net.FdFree fd := by
  intro hfree
  rcases h.sock_cases hfree.1 with hnone | ⟨c, hc⟩
  · rw [hnone] at hkey
    cases hkey
  · obtain ⟨hopen, hfd⟩ := h.open_of_sock fd c hc
    exact hfree.2 c (h.lt_next hopen) hopen hfd

/-- Closing keeps the numbers: of the listening socket, of the next connection and of every
connection. -/
theorem net_close_numbers (s : Clients) (fd : Fd) :
    (s.close fd).net.serverFd = s.net.serverFd ∧ (s.close fd).net.next = s.net.next ∧
      ∀ d, ((s.close fd).net.stream d).fd = (s.net.stream d).fd := by
  cases hget : s.fdToSock.get fd with
  | none =>
      rw [net_close_of_none hget]
      exact ⟨rfl, rfl, fun _ => rfl⟩
  | some sock =>
      have hnet : (s.close fd).net = s.net.close sock := by simp only [close, hget]
      rw [hnet]
      cases sock with
      | server => exact ⟨rfl, rfl, fun _ => rfl⟩
      | client c => exact ⟨rfl, rfl, Net.field_setStream Stream.fd _ rfl⟩

/-- What is open after `_close_client(fd)` was open before, under another fd. -/
theorem Linked.isOpen_close_iff (h : Linked s) {fd : Fd} (hfd : fd ≠ s.net.serverFd) (d : Conn) :
    ((s.close fd).net.stream d).isOpen = true ↔
      (s.net.stream d).isOpen = true ∧ (s.net.stream d).fd ≠ fd := by
  rcases h.sock_cases hfd with hget | ⟨c, hget⟩
  · -- nothing is closed, and nothing was open under the fd
    rw [net_close_of_none hget]
    refine ⟨fun ho => ⟨ho, fun heq => ?_⟩, And.left⟩
    have hd := h.sock_of_open d ho
    rw [heq, hget] at hd
    cases hd
  · rw [net_close_of_client hget]
    by_cases hd : d = c
    · rw [hd, Net.stream_setStream_self]
      refine ⟨fun ho => absurd ho Bool.false_ne_true, ?_⟩
      rintro ⟨-, hne⟩
      exact absurd (h.open_of_sock fd c hget).2 hne
    · rw [Net.stream_setStream_of_ne _ _ hd]
      exact ⟨fun ho => ⟨ho, h.fd_ne hget ho hd⟩, And.left⟩

/-- A closed connection is in no table. -/
theorem Linked.close (h : Linked s) {fd : Fd} (hfd : fd ≠ s.net.serverFd) :
    Linked (s.close fd) := by
  obtain ⟨hserver, hnext, hnumber⟩ := net_close_numbers s fd
  have hopen := h.isOpen_close_iff hfd
  have hpop : ∀ fd', (s.close fd).fdToSock.get fd' =
      if fd' = fd then none else s.fdToSock.get fd' := fun fd' => Dict.get_pop _ _ _
  constructor
  · intro d ho
    obtain ⟨ho, hne⟩ := (hopen d).mp ho
    rw [hnumber, hpop, if_neg hne]
    exact h.sock_of_open d ho
  · intro fd' d hd
    rw [hpop] at hd
    split_ifs at hd with heq
    obtain ⟨ho, hsame⟩ := h.open_of_sock fd' d hd
    rw [hnumber]
    exact ⟨(hopen d).mpr ⟨ho, fun hclosed => heq (hsame.symm.trans hclosed)⟩, hsame⟩
  · intro fd'
    rw [hpop, hserver]
    split_ifs with heq
    · simp [heq, hfd]
    · exact h.server_iff fd'
  · intro d hle
    rw [hnext] at hle
    rw [← Bool.not_eq_true, hopen, h.not_yet d hle]
    simp
  · intro fd'
    rw [hpop, show (s.close fd).sendBufs.get fd' = _ from Dict.get_pop _ _ _]
    split_ifs
    · simp
    · exact h.buf_iff fd'

/-- A closed connection is a closed line. -/
theorem moves_close (h : Linked s) {fd : Fd} (hfd : fd ≠ s.net.serverFd) :
    Relay.Moves upperByte s.lines (s.close fd).lines := by
  rcases h.sock_cases hfd with hget | ⟨c, hget⟩
  · have hlines : (s.close fd).lines = s.lines := by
      funext d
      refine line_congr (by rw [net_close_of_none hget]) fun ho => Dict.get_pop_of_ne _ ?_
      intro heq
      have hd := h.sock_of_open d ho
      rw [heq, hget] at hd
      cases hd
    rw [hlines]
    exact .refl _ _
  · have hlines : (s.close fd).lines = Function.update s.lines c (s.lines c).close := by
      refine lines_eq_update (fun d hd => ?_) ?_
      · exact line_congr (by rw [net_close_of_client hget, Net.stream_setStream_of_ne _ _ hd])
          fun ho => Dict.get_pop_of_ne _ (h.fd_ne hget ho hd)
      · rw [line, net_close_of_client hget, Net.stream_setStream_self]
        rfl
    rw [hlines]
    exact .single (.close c)

end Ops

/-! ## Handlers as relays -/

/-- What every handler does: linked tables stay linked, for the same listening socket,
and the lines move as those of a relay. -/
def Relays (s s' : Clients) : Prop :=
  s.Linked → s'.Linked ∧ s'.net.serverFd = s.net.serverFd ∧
    Relay.Moves upperByte s.lines s'.lines

namespace Relays

variable {s s' s'' : Clients}

theorem refl (s : Clients) : Relays s s := fun h => ⟨h, rfl, .refl _ _⟩

theorem trans (h₁ : Relays s s') (h₂ : Relays s' s'') : Relays s s'' := by
  intro h
  obtain ⟨hlinked, hserver, hmoves⟩ := h₁ h
  obtain ⟨hlinked', hserver', hmoves'⟩ := h₂ hlinked
  exact ⟨hlinked', hserver'.trans hserver, hmoves.trans hmoves'⟩

/-- A client sends. -/
theorem clientSend (s : Clients) (c : Conn) (data : Bytes) : Relays s (s.clientSend c data) :=
  fun h => ⟨h.clientSend c data, rfl, moves_clientSend s c data⟩

/-- The server receives. -/
theorem receive {fd : Fd} {c : Conn} (hget : s.fdToSock.get fd = some (.client c)) (k : ℕ) :
    Relays s (s.receive fd c k) :=
  fun h => ⟨h.receive hget k, rfl, moves_receive h hget k⟩

/-- The server sends. -/
theorem flush {fd : Fd} {c : Conn} (hget : s.fdToSock.get fd = some (.client c)) {buf : Bytes}
    (hbuf : s.sendBufs.get fd = some buf) (n : ℕ) : Relays s (s.flush fd c buf n) :=
  fun h => ⟨h.flush hget buf n, rfl, moves_flush h hget hbuf n⟩

/-- The server accepts. -/
theorem addClient {fd : Fd} (hfree : s.net.FdFree fd) (data : Bytes) :
    Relays s (s.addClient fd data) :=
  fun h => ⟨h.addClient hfree data, rfl, moves_addClient h hfree data⟩

/-- The server closes. -/
theorem close {fd : Fd} (hfd : fd ≠ s.net.serverFd) : Relays s (s.close fd) :=
  fun h => ⟨h.close hfd, (net_close_numbers s fd).1, moves_close h hfd⟩

/-- Two parts of a handler. -/
theorem andThen {σ : Type} (clients : σ → Clients) {r : Ran σ} {f : σ → Ran σ}
    (h₁ : Relays s (clients r.state)) (h₂ : Relays (clients r.state) (clients (f r.state).state)) :
    Relays s (clients (r.andThen f).state) := by
  rw [Ran.andThen]
  split_ifs
  · exact h₁
  · exact h₁.trans h₂

/-- What is to be relayed may use that the tables are linked. -/
theorem of_linked (h : s.Linked → Relays s s') : Relays s s' := fun hl => h hl hl

end Relays

/-! ## Clean-up -/

/-- `for fd in list(fd_to_sock.keys()): if fd != server: _close_client(fd)`, with the
server's own `_close_client`. -/
def closeAll {σ : Type} (clients : σ → Clients) (closeClient : σ → Fd → σ) (s : σ) : σ :=
  ((clients s).fdToSock.items.map Prod.fst).foldl
    (fun s fd => if fd = (clients s).net.serverFd then s else closeClient s fd) s

/-- All connections are closed, one after the other. -/
theorem relays_closeAll {σ : Type} {clients : σ → Clients} {closeClient : σ → Fd → σ}
    (hclose : ∀ s fd, fd ≠ (clients s).net.serverFd →
      Relays (clients s) (clients (closeClient s fd))) (s : σ) :
    Relays (clients s) (clients (closeAll clients closeClient s)) := by
  have hfold : ∀ (fds : List Fd) (s : σ), Relays (clients s) (clients (fds.foldl
      (fun s fd => if fd = (clients s).net.serverFd then s else closeClient s fd) s)) := by
    intro fds
    induction fds with
    | nil => exact fun s => .refl _
    | cons fd rest ih =>
        intro s
        refine Relays.trans ?_ (ih _)
        show Relays _ (clients (if fd = (clients s).net.serverFd then s else closeClient s fd))
        split_ifs with hfd
        · exact .refl _
        · exact hclose s fd hfd
  exact hfold _ s

/-! ## Integrity -/

/-- What holds of the connections of an echo server between two handler calls: on an open
one, the bytes sent followed by the send buffer are the upper-casing of the bytes
received; on any one, the bytes sent are a prefix of the upper-casing of what its client
has sent. -/
def Echoes (s : Clients) : Prop :=
  ∀ c, ((s.net.stream c).isOpen = true →
      (s.net.stream c).sent ++ s.sendBuf (s.net.stream c).fd = upper (s.net.stream c).received) ∧
    (s.net.stream c).sent <+: upper ((s.net.stream c).received ++ (s.net.stream c).unread)

/-- **Echo**, said of what clients have sent and received. -/
theorem echoes_of_sound {s : Clients} (h : ∀ c, (s.lines c).Sound upperByte) : s.Echoes := by
  intro c
  refine ⟨fun ho => ?_, (h c).sent_prefix_offered⟩
  have hline := (h c).queued_eq ho
  rw [show (s.lines c).queued = s.sendBuf (s.net.stream c).fd from if_pos ho] at hline
  exact hline

/-- At the start nothing has been sent. -/
theorem sound_listen (serverFd : Fd) : ∀ c, ((listen serverFd).lines c).Sound upperByte :=
  fun _ => ⟨fun ho => absurd ho Bool.false_ne_true, List.prefix_rfl⟩

/-- **Integrity.**  If every step of a server relays, then in every run that starts with
a listening socket and no connection, the tables are linked and the server echoes. -/
theorem run_echoes {σ α ε : Type} {step : σ → α → Option (ε × σ)} {ok : σ → α → Prop}
    (clients : σ → Clients) (serverFd : Fd) {s₀ s : σ} {h : List ε}
    (hstart : clients s₀ = .listen serverFd)
    (hstep : ∀ s a e s', step s a = some (e, s') → Relays (clients s) (clients s'))
    (hr : Run step ok s₀ h s) :
    (clients s).Linked ∧ (clients s).net.serverFd = serverFd ∧ (clients s).Echoes := by
  have hinv : (clients s).Linked ∧ (clients s).net.serverFd = serverFd ∧
      ∀ c, ((clients s).lines c).Sound upperByte := by
    refine Run.invariant (fun _ s => (clients s).Linked ∧ (clients s).net.serverFd = serverFd ∧
      ∀ c, ((clients s).lines c).Sound upperByte) ?_ ?_ hr
    · rw [hstart]
      exact ⟨.listen serverFd, rfl, sound_listen serverFd⟩
    · rintro _ s a e s' ⟨hlinked, hserver, hsound⟩ _ hs
      obtain ⟨hlinked', hserver', hmoves⟩ := hstep s a e s' hs hlinked
      exact ⟨hlinked', hserver'.trans hserver, hmoves.sound hsound⟩
  exact ⟨hinv.1, hinv.2.1, echoes_of_sound hinv.2.2⟩

end Clients

end Io

/-
# The epoll server in `EDGE` mode, one system call at a time

`EpollEchoServer` without `use_oneshot`, with the clients and the kernel acting between
any two of its system calls.

A step of the server is one system call with the Python code up to the next; `CallSite`
says where it is.  The kernel keeps, for every connection, what it has not handed over
yet and how full its send buffer is, and epoll's ready list.  An fd enters that list

* when bytes, the end of the stream or a connection arrive;
* when a full send buffer gets space, if the fd's interest includes `EPOLLOUT`;
* at `register` and `modify`, if it is then ready for a bit of its interest;

and leaves it when `epoll.poll` takes it, reported with the bits of interest it is then
ready for.  `recv` returns some of the bytes there are, at most 4096; `send` takes what
fits.  Connections are numbered in the order in which they are completed, which is the
order of `accept`.
-/
import Cocurrency.Io.Epoll

namespace Io

/-! ## The kernel's side -/

/-- How a client ends its stream. -/
inductive Ending where
  | eof
  | reset
  deriving DecidableEq, Repr

/-- What the kernel keeps for a connection besides the bytes to read: how the client ended
the stream, if it did, and the fill of the send buffer. -/
structure Buffers where
  ending : Option Ending
  used : ℕ
  capacity : ℕ

/-- The send buffer has no space. -/
def Buffers.full (b : Buffers) : Bool := b.capacity ≤ b.used

/-- The open socket that has the fd number. -/
def Net.sockAt (net : Net) (fd : Fd) : Option Sock :=
  if fd = net.serverFd then some .server
  else
    ((List.range net.next).find? fun c =>
      (net.stream c).isOpen && (net.stream c).fd = fd).map .client

/-- The bits of `interest` that are set in `readiness`, and the two that are always
reported. -/
def Mask.reported (interest readiness : Mask) : Mask where
  readable := interest.readable && readiness.readable
  writable := interest.writable && readiness.writable
  error := readiness.error
  hangup := readiness.hangup

/-! ## State -/

/-- The system call that the server is about to make, with the local variables that the
code after it uses. -/
inductive CallSite where
  /-- `epoll.poll`, or the next event of the batch if there is one -/
  | poll
  | accept
  | register (fd : Fd)
  | recv (fd : Fd) (c : Conn) (event : Mask) (totalRead : ℕ)
  /-- `_rearm(fd, EPOLLIN | EPOLLOUT)` after the `recv` loop -/
  | modifyInOut (fd : Fd) (c : Conn) (event : Mask)
  | send (fd : Fd) (c : Conn)
  /-- `_rearm(fd, EPOLLIN)` in `_flush_send` -/
  | modifyIn (fd : Fd)
  /-- `_close_client` -/
  | close (fd : Fd)
  /-- `serve_forever` has returned -/
  | done
  deriving DecidableEq

/-- The server, the kernel and what waits between them. -/
structure EdgeLoop where
  server : EpollEchoServer
  /-- the number of completed connections, accepted or not -/
  connected : ℕ
  buffers : Conn → Buffers
  /-- epoll's ready list -/
  ready : List Fd
  /-- the events of the last `epoll.poll` that wait for their handler -/
  batch : List (Fd × Mask)
  site : CallSite

namespace EdgeLoop

open Clients

/-- After `start()`. -/
def start (serverFd : Fd) : EdgeLoop where
  server := .start .edge false serverFd
  connected := 0
  buffers := fun _ => ⟨none, 0, 0⟩
  ready := []
  batch := []
  site := .poll

/-! ## Readiness -/

/-- `EPOLLIN` holds of the socket: a connection to accept, or something to read. -/
def readable (l : EdgeLoop) : Sock → Bool
  | .server => l.server.net.next < l.connected
  | .client c => (l.server.net.stream c).unread ≠ [] || (l.buffers c).ending.isSome

/-- `EPOLLOUT` holds of the socket. -/
def writable (l : EdgeLoop) : Sock → Bool
  | .server => false
  | .client c => !(l.buffers c).full

/-- `EPOLLERR` and `EPOLLHUP` hold of the socket. -/
def wasReset (l : EdgeLoop) : Sock → Bool
  | .server => false
  | .client c => (l.buffers c).ending = some .reset

/-- What the fd is ready for. -/
def readiness (l : EdgeLoop) (fd : Fd) : Mask :=
  match l.server.net.sockAt fd with
  | none => {}
  | some sock =>
      { readable := l.readable sock
        writable := l.writable sock
        error := l.wasReset sock
        hangup := l.wasReset sock }

/-- What epoll would report for the fd now. -/
def report (l : EdgeLoop) (fd : Fd) : Mask :=
  match l.server.epoll.get fd with
  | none => {}
  | some reg => reg.mask.reported (l.readiness fd)

/-- Something happens to the fd that epoll looks for if the interest has a certain bit. -/
def wake (l : EdgeLoop) (fd : Fd) (bit : Mask → Bool) : EdgeLoop :=
  { l with
    ready :=
      if (l.server.epoll.get fd).any fun reg => bit reg.mask then l.ready.insert fd
      else l.ready }

/-- Something happens to a connection; it has an fd while its socket is open. -/
def wakeClient (l : EdgeLoop) (c : Conn) (bit : Mask → Bool) : EdgeLoop :=
  { l with
    ready :=
      if (l.server.net.stream c).isOpen then (l.wake (l.server.net.stream c).fd bit).ready
      else l.ready }

/-- `register` and `modify` look at what the fd is ready for. -/
def watch (l : EdgeLoop) (fd : Fd) : EdgeLoop :=
  { l with ready := if l.report fd = {} then l.ready else l.ready.insert fd }

/-! ## The clients -/

/-- Other kernel buffers for connection `c`. -/
def setBuffers (l : EdgeLoop) (c : Conn) (b : Buffers) : EdgeLoop :=
  { l with buffers := Function.update l.buffers c b }

/-- A connection is completed, with a send buffer of `capacity` bytes. -/
def connect (l : EdgeLoop) (capacity : ℕ) : EdgeLoop :=
  { l.setBuffers l.connected ⟨none, 0, capacity⟩ with connected := l.connected + 1 }.wake
    l.server.net.serverFd Mask.readable

/-- Bytes arrive. -/
def clientSend (l : EdgeLoop) (c : Conn) (data : Bytes) : EdgeLoop :=
  { l with server := l.server.withClients (l.server.toClients.clientSend c data) }.wakeClient c
    Mask.readable

/-- The end of the stream, or a reset, arrives. -/
def clientEnd (l : EdgeLoop) (c : Conn) (how : Ending) : EdgeLoop :=
  (l.setBuffers c { l.buffers c with ending := some how }).wakeClient c Mask.readable

/-- The client reads `n` bytes, which makes space in the send buffer. -/
def clientRead (l : EdgeLoop) (c : Conn) (n : ℕ) : EdgeLoop :=
  let l' := l.setBuffers c { l.buffers c with used := (l.buffers c).used - n }
  { l' with
    ready :=
      if (l.buffers c).full && !(l'.buffers c).full then (l'.wakeClient c Mask.writable).ready
      else l.ready }

/-! ## The system calls of the server -/

/-- The loop ends: by `KeyboardInterrupt` or an exception that is not caught. -/
def ended (l : EdgeLoop) : EdgeLoop :=
  { l with server := l.server.cleanup, ready := [], batch := [], site := .done }

/-- The beginning of `_flush_send`. -/
def flushSite (l : EdgeLoop) (fd : Fd) (c : Conn) : CallSite :=
  if l.server.sendBuf fd = [] then .modifyIn fd else .send fd c

/-- The `EPOLLOUT` part of `_handle_io_et`. -/
def writeSite (l : EdgeLoop) (fd : Fd) (c : Conn) (event : Mask) : CallSite :=
  if event.writable then l.flushSite fd c else .poll

/-- `epoll.poll` takes these fds from the ready list. -/
def pollCall (l : EdgeLoop) (fds : List Fd) : EdgeLoop :=
  { l with
    ready := l.ready.filter (· ∉ fds)
    batch := (fds.map fun fd => (fd, l.report fd)).filter fun x => x.2 ≠ {} }

/-- The handler of an event, up to its first system call. -/
def dispatch (l : EdgeLoop) (fd : Fd) (event : Mask) : EdgeLoop :=
  if fd = l.server.net.serverFd then
    { l with site := if event.readable then .accept else .poll }
  else
    match l.server.fdToSock.get fd with
    | none => { l with site := .poll }
    | some .server => l.ended
    | some (.client c) =>
        { l with
          site :=
            if event.failed then .close fd
            else if event.readable then .recv fd c event 0
            else l.writeSite fd c event }

/-- `accept()` in `_accept_client`; a new connection gets the number `fd`. -/
def acceptCall (l : EdgeLoop) (fd : Fd) : Option EdgeLoop :=
  if l.server.net.next < l.connected then
    if l.server.net.FdFree fd then
      some { l with
        server := l.server.withClients
          (l.server.toClients.addClient fd (l.server.net.stream l.server.net.next).unread)
        site := .register fd }
    else none
  else some { l with site := .poll }

/-- `epoll.register` in `_accept_client`. -/
def registerCall (l : EdgeLoop) (fd : Fd) : EdgeLoop :=
  if (l.server.epoll.get fd).isSome then l.ended
  else
    { l with
      server := { l.server with
        epoll := l.server.epoll.set fd
          (EpollEchoServer.registration l.server.mode l.server.useOneshot .pollIn) }
      site := .accept }.watch fd

/-- `recv(4096)` in `_handle_io_et`, which returns `k` bytes if there are any. -/
def recvCall (l : EdgeLoop) (fd : Fd) (c : Conn) (event : Mask) (totalRead k : ℕ) :
    Option EdgeLoop :=
  if (l.server.net.stream c).unread ≠ [] then
    if 0 < k ∧ k ≤ (l.server.net.stream c).unread.length ∧ k ≤ recvSize then
      some { l with
        server := l.server.withClients (l.server.toClients.receive fd c k)
        site := .recv fd c event (totalRead + (l.server.net.recvData c k).length) }
    else none
  else
    match (l.buffers c).ending with
    | none =>
        -- `BlockingIOError`
        some { l with
          site := if 0 < totalRead then .modifyInOut fd c event else l.writeSite fd c event }
    | some _ => some { l with site := .close fd }

/-- `epoll.modify` in `_rearm`. -/
def modifyCall (l : EdgeLoop) (fd : Fd) (mask : Mask) (site : CallSite) : EdgeLoop :=
  { l with server := l.server.rearm fd mask, site := site }.watch fd

/-- `send(buf)` in `_flush_send`. -/
def sendCall (l : EdgeLoop) (fd : Fd) (c : Conn) : EdgeLoop :=
  let buf := l.server.sendBuf fd
  let n := min buf.length ((l.buffers c).capacity - (l.buffers c).used)
  if (l.buffers c).ending = some .reset then { l with site := .close fd }
  else if (l.buffers c).full then { l with site := .poll }
  else
    { l.setBuffers c { l.buffers c with used := (l.buffers c).used + n } with
      server := l.server.withClients (l.server.toClients.flush fd c buf n)
      site := if buf.drop n = [] then .modifyIn fd else .poll }

/-- `_close_client`: `unregister` and `close`. -/
def closeCall (l : EdgeLoop) (fd : Fd) : EdgeLoop :=
  { l with
    server := l.server.closeClient fd
    ready := l.ready.filter (· ≠ fd)
    site := .poll }

/-! ## Steps -/

/-- What can happen. -/
inductive Action where
  | connect (capacity : ℕ)
  | clientSend (c : Conn) (data : Bytes)
  | clientEnd (c : Conn) (how : Ending)
  | clientRead (c : Conn) (n : ℕ)
  /-- `epoll.poll` returns events of these fds -/
  | poll (fds : List Fd)
  /-- the loop goes on with the next event of the batch -/
  | next
  /-- `accept()`, which gives a new connection the number `fd` -/
  | accept (fd : Fd)
  /-- `recv(4096)`, which hands over `k` bytes if there are any -/
  | recv (k : ℕ)
  /-- any other system call: its result is determined -/
  | call
  | stop

/-- A client can send after it connected and before it ended the stream. -/
def Sends (l : EdgeLoop) (c : Conn) : Prop := c < l.connected ∧ (l.buffers c).ending = none

instance (l : EdgeLoop) (c : Conn) : Decidable (l.Sends c) := by
  unfold Sends
  infer_instance

/-- A system call whose result is determined. -/
def systemCall (l : EdgeLoop) : Option EdgeLoop :=
  match l.site with
  | .register fd => some (l.registerCall fd)
  | .modifyInOut fd c event =>
      some (l.modifyCall fd .pollInOut (l.writeSite fd c event))
  | .send fd c => some (l.sendCall fd c)
  | .modifyIn fd => some (l.modifyCall fd .pollIn .poll)
  | .close fd => some (l.closeCall fd)
  | _ => none

/-- The state after an action. -/
def after (l : EdgeLoop) : Action → Option EdgeLoop
  | .connect capacity => some (l.connect capacity)
  | .clientSend c data => if l.Sends c ∧ data ≠ [] then some (l.clientSend c data) else none
  | .clientEnd c how =>
      if l.Sends c ∨ (l.buffers c).ending = some .eof ∧ how = .reset then
        some (l.clientEnd c how)
      else none
  | .clientRead c n =>
      if c < l.connected ∧ 0 < n ∧ n ≤ (l.buffers c).used then some (l.clientRead c n)
      else none
  | .poll fds =>
      if l.site = .poll ∧ l.batch = [] ∧ fds.Nodup ∧ ∀ fd ∈ fds, fd ∈ l.ready then
        some (l.pollCall fds)
      else none
  | .next =>
      match l.site, l.batch with
      | .poll, (fd, event) :: rest => some ({ l with batch := rest }.dispatch fd event)
      | _, _ => none
  | .accept fd => if l.site = .accept then l.acceptCall fd else none
  | .recv k =>
      match l.site with
      | .recv fd c event totalRead => l.recvCall fd c event totalRead k
      | _ => none
  | .call => l.systemCall
  | .stop => if l.site = .done then none else some l.ended

/-- A step, which is seen as the action itself. -/
def step (l : EdgeLoop) (a : Action) : Option (Action × EdgeLoop) := (l.after a).map (a, ·)

end EdgeLoop

end Io

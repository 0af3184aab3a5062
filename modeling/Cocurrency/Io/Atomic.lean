/-
# The handlers of the epoll server are atomic

Between two system calls of a handler in `EDGE` mode the clients act.  What they send
meanwhile only makes the receive buffers longer, and every system call does the same with
a longer receive buffer.  So the handler does what `EpollEchoServer.dispatch` does in one
go when all of it has arrived before (`handler_atomic`): the steps of `EdgeLoop` refine
those of `EpollEchoServer`.
-/
import Cocurrency.Io.NoStuckData

namespace Io

/-! ## Bytes that have arrived already -/

/-- More bytes to read. -/
def Stream.extend (st : Stream) (data : Bytes) : Stream := { st with unread := st.unread ++ data }

/-- The receive buffers, longer by the bytes `late`. -/
def Net.extend (net : Net) (late : Conn → Bytes) : Net :=
  { net with stream := fun c => (net.stream c).extend (late c) }

namespace Net

variable (net : Net) (late : Conn → Bytes) (c : Conn)

/-- More from the clients, and a change of one stream. -/
theorem extend_setStream (st : Stream) :
    (net.setStream c st).extend late = (net.extend late).setStream c (st.extend (late c)) := by
  refine congrArg (Net.mk net.serverFd net.next) (funext fun d => ?_)
  show ((net.setStream c st).stream d).extend (late d) =
    ((net.extend late).setStream c (st.extend (late c))).stream d
  by_cases hd : d = c
  · rw [hd, stream_setStream_self, stream_setStream_self]
  · rw [stream_setStream_of_ne _ _ hd, stream_setStream_of_ne _ _ hd]
    rfl

/-- What is read does not depend on what comes later. -/
theorem recvData_extend {k : ℕ} (hk : k ≤ (net.stream c).unread.length) :
    (net.extend late).recvData c k = net.recvData c k := by
  rw [recvData, recvData]
  show ((net.stream c).unread ++ late c).take (min k recvSize) = _
  exact List.take_append_of_le_length (Nat.le_trans (Nat.min_le_left _ _) hk)

/-- `recv` reads what is there, whatever comes later. -/
theorem recv_extend {k : ℕ} (hk : k ≤ (net.stream c).unread.length) :
    (net.extend late).recv c k = (net.recv c k).extend late := by
  have hdrop : ((net.stream c).unread ++ late c).drop (min k recvSize) =
      (net.stream c).unread.drop (min k recvSize) ++ late c :=
    List.drop_append_of_le_length (Nat.le_trans (Nat.min_le_left _ _) hk)
  rw [recv, recv, extend_setStream, recvData_extend _ _ _ hk]
  apply congrArg ((net.extend late).setStream c)
  show Stream.mk _ (((net.stream c).unread ++ late c).drop (min k recvSize)) _ _ _ = _
  rw [hdrop]
  rfl

theorem send_extend (buf : Bytes) (n : ℕ) :
    (net.extend late).send c buf n = (net.send c buf n).extend late := by
  rw [send, send, extend_setStream]
  rfl

theorem close_extend (sock : Sock) :
    (net.extend late).close sock = (net.close sock).extend late := by
  cases sock with
  | server => rfl
  | client c =>
      rw [close, close, extend_setStream]
      rfl

/-- `accept`, of a connection that will have sent more. -/
theorem accept_extend (fd : Fd) (data : Bytes) :
    (net.extend late).accept fd (data ++ late net.next) = (net.accept fd data).extend late := by
  have hset := extend_setStream net late net.next ⟨fd, data, [], [], true⟩
  exact congrArg (fun net' : Net => { net' with next := net.next + 1 }) hset.symm

theorem extend_nil : net.extend (fun _ => []) = net := by
  refine congrArg (Net.mk net.serverFd net.next) (funext fun d => ?_)
  rw [Stream.extend, List.append_nil]

/-- More, and then still more. -/
theorem extend_extend (late' : Conn → Bytes) :
    (net.extend late).extend late' = net.extend fun d => late d ++ late' d := by
  refine congrArg (Net.mk net.serverFd net.next) (funext fun d => ?_)
  show { net.stream d with unread := ((net.stream d).unread ++ late d) ++ late' d } = _
  rw [List.append_assoc]
  rfl

/-- What a client sends is more. -/
theorem clientSend_eq_extend (data : Bytes) :
    net.clientSend c data = net.extend fun d => if d = c then data else [] := by
  refine congrArg (Net.mk net.serverFd net.next) (funext fun d => ?_)
  show (net.clientSend c data).stream d = (net.stream d).extend (if d = c then data else [])
  by_cases hd : d = c
  · rw [if_pos hd, hd, clientSend, stream_setStream_self]
    rfl
  · rw [if_neg hd, clientSend, stream_setStream_of_ne _ _ hd, Stream.extend, List.append_nil]

end Net

namespace EpollEchoServer

open Clients

/-- The server, with longer receive buffers. -/
def extend (s : EpollEchoServer) (late : Conn → Bytes) : EpollEchoServer :=
  s.withClients { s.toClients with net := s.net.extend late }

variable (s : EpollEchoServer) (late : Conn → Bytes) (fd : Fd) (c : Conn)

/-- What a client sends can be part of what comes later. -/
theorem clientSend_extend (data : Bytes) :
    (s.withClients (s.toClients.clientSend c data)).extend late =
      s.extend fun d => (if d = c then data else []) ++ late d := by
  unfold extend withClients clientSend
  dsimp only
  rw [Net.clientSend_eq_extend, Net.extend_extend]

theorem extend_nil : s.extend (fun _ => []) = s := by
  unfold extend withClients
  rw [Net.extend_nil]

/-- Receiving what is there. -/
theorem receive_extend {k : ℕ} (hk : k ≤ (s.net.stream c).unread.length) :
    (s.extend late).withClients ((s.extend late).toClients.receive fd c k) =
      (s.withClients (s.toClients.receive fd c k)).extend late := by
  have hnet := Net.recv_extend s.net late c hk
  have hdata := Net.recvData_extend s.net late c hk
  unfold withClients extend withClients receive
  dsimp only
  rw [hnet, hdata]

theorem flush_extend (buf : Bytes) (n : ℕ) :
    (s.extend late).withClients ((s.extend late).toClients.flush fd c buf n) =
      (s.withClients (s.toClients.flush fd c buf n)).extend late := by
  have hnet := Net.send_extend s.net late c buf n
  unfold withClients extend withClients flush
  dsimp only
  rw [hnet]

/-- A new registration. -/
theorem rearm_extend (mask : Mask) :
    (s.extend late).rearm fd mask = (s.rearm fd mask).extend late := by
  unfold rearm
  show (if (s.epoll.get fd).isSome = true then _ else _) = _
  split_ifs <;> rfl

theorem closeClient_extend : (s.extend late).closeClient fd = (s.closeClient fd).extend late := by
  unfold closeClient close extend withClients
  dsimp only
  cases s.fdToSock.get fd with
  | none => rfl
  | some sock =>
      dsimp only
      rw [Net.close_extend]

/-- Accepting a client that will have sent more. -/
theorem addClient_extend (data : Bytes) :
    (s.extend late).withClients
        ((s.extend late).toClients.addClient fd (data ++ late s.net.next)) =
      (s.withClients (s.toClients.addClient fd data)).extend late := by
  have hnet := Net.accept_extend s.net late fd data
  unfold withClients extend withClients addClient
  dsimp only
  rw [show (s.net.extend late).accept fd (data ++ late s.net.next) = _ from hnet]
  rfl

end EpollEchoServer

/-- Accepting a connection, then others with fd numbers that are free after it. -/
theorem FreshFds.cons {net : Net} {fd : Fd} {data : Bytes} {conns : List (Fd × Bytes)}
    (hfree : net.FdFree fd) (h : FreshFds (net.accept fd data) conns) (data' : Bytes) :
    FreshFds net ((fd, data') :: conns) := by
  have hnew : (net.accept fd data).stream net.next = ⟨fd, data, [], [], true⟩ :=
    Net.stream_setStream_self _ _ _
  have hother : ∀ x ∈ conns, x.1 ≠ fd := by
    intro x hx heq
    apply (h.2 x hx).2 net.next (Nat.lt_succ_self _) (by rw [hnew])
    rw [hnew]
    exact heq.symm
  constructor
  · rw [List.map_cons, List.nodup_cons]
    refine ⟨fun hmem => ?_, h.1⟩
    obtain ⟨x, hx, heq⟩ := List.mem_map.mp hmem
    exact hother x hx heq
  · intro x hx
    rcases List.mem_cons.mp hx with rfl | hx
    · exact hfree
    · refine ⟨(h.2 x hx).1, fun c hc hopen => ?_⟩
      have hstream : (net.accept fd data).stream c = net.stream c :=
        Net.stream_setStream_of_ne _ _ (Nat.ne_of_lt hc)
      have hne := (h.2 x hx).2 c (Nat.lt_succ_of_lt hc)
      rw [hstream] at hne
      exact hne hopen

/-- No new connections. -/
theorem freshFds_nil (net : Net) : FreshFds net [] :=
  ⟨List.nodup_nil, fun _ hx => absurd hx List.not_mem_nil⟩

/-! ## The rest of a handler -/

/-- What the kernel answers to the calls of a handler that are still to come. -/
structure Answers where
  conns : List (Fd × Bytes) := []
  recvs : List ℕ := []
  last : SockError := .blockingIOError
  sendOut : Except SockError ℕ := .ok 0

open EpollEchoServer in
/-- The rest of the handler from a call site, in one go. -/
def CallSite.finish (s : EpollEchoServer) (answers : Answers) : CallSite → Ran EpollEchoServer
  | .poll | .done => { state := s }
  | .accept => acceptLoop answers.last s answers.conns
  | .register fd =>
      if (s.epoll.get fd).isSome then { state := s, raised := some .other }
      else
        acceptLoop answers.last
          { s with epoll := s.epoll.set fd (registration s.mode s.useOneshot .pollIn) }
          answers.conns
  | .recv fd c event totalRead =>
      match drain fd c answers.last s totalRead answers.recvs with
      | .left r => r
      | .drained s' totalRead =>
          (if 0 < totalRead then s'.rearm fd .pollInOut else s').flushIf fd c event
            answers.sendOut
  | .modifyInOut fd c event => (s.rearm fd .pollInOut).flushIf fd c event answers.sendOut
  | .send fd c => s.flushSend fd c answers.sendOut
  | .modifyIn fd => { state := s.rearm fd .pollIn }
  | .close fd => { state := s.closeClient fd }

/-- A round of the `accept` loop is `accept()`, then `register`. -/
theorem EpollEchoServer.acceptLoop_cons (s : EpollEchoServer) (fd : Fd) (data : Bytes)
    (answers : Answers) :
    acceptLoop answers.last s ((fd, data) :: answers.conns) =
      (CallSite.register fd).finish (s.withClients (s.toClients.addClient fd data)) answers := by
  rw [acceptLoop, admitClient, CallSite.finish]
  show Ran.andThen (if (s.epoll.get fd).isSome = true then _ else _) _ =
    if (s.epoll.get fd).isSome = true then _ else _
  split_ifs <;> rfl

namespace EdgeLoop

open Clients

variable {l l' : EdgeLoop} {fd : Fd} {c : Conn} {event : Mask}

/-- The site that the `EPOLLOUT` part begins with. -/
theorem finish_writeSite (l : EdgeLoop) (fd : Fd) (c : Conn) (event : Mask)
    (late : Conn → Bytes) (answers : Answers) :
    (l.writeSite fd c event).finish (l.server.extend late) answers =
      (l.server.extend late).flushIf fd c event answers.sendOut := by
  unfold writeSite flushSite EpollEchoServer.flushIf
  split_ifs with hwrite hempty
  · rw [sendBuf] at hempty
    unfold EpollEchoServer.flushSend
    rw [show (l.server.extend late).sendBufs = l.server.sendBufs from rfl]
    cases hbuf : l.server.sendBufs.get fd with
    | none => rfl
    | some buf =>
        rw [hbuf, Option.getD_some] at hempty
        rw [hempty]
        rfl
  · rfl
  · rfl

/-- A system call of the handler that has an fd in hand. -/
def Action.isCall : Action → Bool
  | .accept _ | .recv _ | .call => true
  | _ => false

/-- `accept()` -/
theorem finish_acceptCall (hone : l.server.useOneshot = false) (hsite : l.site = .accept)
    (hs : l.acceptCall fd = some l') (late : Conn → Bytes) (answers' : Answers)
    (hfresh : FreshFds l'.server.net answers'.conns) :
    ∃ answers, FreshFds l.server.net answers.conns ∧
      l.site.finish (l.server.extend late) answers =
        l'.site.finish (l'.server.extend late) answers' := by
  unfold acceptCall at hs
  split_ifs at hs with hwaits hfree
  · cases hs
    have hadd := EpollEchoServer.addClient_extend l.server late fd
      (l.server.net.stream l.server.net.next).unread
    refine ⟨{ answers' with
      conns := (fd, (l.server.net.stream l.server.net.next).unread ++ late l.server.net.next) ::
        answers'.conns }, hfresh.cons hfree _, ?_⟩
    rw [hsite, ← hadd]
    exact EpollEchoServer.acceptLoop_cons (l.server.extend late) fd _ answers'
  · cases hs
    refine ⟨{}, freshFds_nil _, ?_⟩
    rw [hsite]
    dsimp only [CallSite.finish]
    rw [EpollEchoServer.acceptLoop, if_pos rfl]
    show Ran.mk (if l.server.useOneshot = true then _ else _) _ = _
    rw [hone, if_neg Bool.false_ne_true]

/-- `recv(4096)` -/
theorem finish_recvCall {totalRead k : ℕ} (hsite : l.site = .recv fd c event totalRead)
    (hs : l.recvCall fd c event totalRead k = some l') (late : Conn → Bytes)
    (answers' : Answers) :
    ∃ answers, FreshFds l.server.net answers.conns ∧
      l.site.finish (l.server.extend late) answers =
        l'.site.finish (l'.server.extend late) answers' := by
  rw [hsite]
  unfold recvCall at hs
  by_cases hunread : (l.server.net.stream c).unread ≠ []
  · rw [if_pos hunread] at hs
    split_ifs at hs with hk
    cases hs
    have hdata := Net.recvData_extend l.server.net late c hk.2.1
    have hne := l.server.net.recvData_ne_nil hk.1 hk.2.1
    refine ⟨{ answers' with conns := [], recvs := k :: answers'.recvs }, freshFds_nil _, ?_⟩
    rw [CallSite.finish, EpollEchoServer.drain]
    rw [show (l.server.extend late).net.recvData c k = _ from hdata, if_neg hne,
      EpollEchoServer.receive_extend _ _ _ _ hk.2.1]
    rfl
  · rw [if_neg hunread] at hs
    split at hs
    · cases hs
      refine ⟨{ sendOut := answers'.sendOut }, freshFds_nil _, ?_⟩
      rw [CallSite.finish, EpollEchoServer.drain, if_pos rfl]
      dsimp only
      split_ifs with htotal
      · rfl
      · exact (finish_writeSite l fd c event late answers').symm
    · next how hending =>
      cases hs
      cases how with
      | eof =>
          -- `recv` returns `b""`
          refine ⟨{ recvs := [0] }, freshFds_nil _, ?_⟩
          rw [CallSite.finish, EpollEchoServer.drain, if_pos (by rw [Net.recvData]; simp)]
          rfl
      | reset =>
          refine ⟨{ last := .connectionResetError }, freshFds_nil _, ?_⟩
          rfl

/-- `send(buf)` -/
theorem finish_sendCall (hedge : l.server.mode = .edge) (hbuf : l.server.sendBuf fd ≠ [])
    (hsite : l.site = .send fd c) (late : Conn → Bytes) (answers' : Answers) :
    ∃ answers, FreshFds l.server.net answers.conns ∧
      l.site.finish (l.server.extend late) answers =
        (l.sendCall fd c).site.finish ((l.sendCall fd c).server.extend late) answers' := by
  obtain ⟨b, rest, hget⟩ : ∃ b rest, l.server.sendBufs.get fd = some (b :: rest) := by
    rw [sendBuf] at hbuf
    cases hget : l.server.sendBufs.get fd with
    | none => exact absurd (by rw [hget]; rfl) hbuf
    | some buf =>
        cases buf with
        | nil => exact absurd (by rw [hget]; rfl) hbuf
        | cons b rest => exact ⟨b, rest, rfl⟩
  have hsend : l.server.sendBuf fd = b :: rest := by rw [sendBuf, hget, Option.getD_some]
  have hflush : ∀ out, (l.server.extend late).flushSend fd c out = _ := fun out => by
    unfold EpollEchoServer.flushSend
    rw [show (l.server.extend late).sendBufs.get fd = _ from hget,
      show (l.server.extend late).mode = .edge from hedge]
  rw [hsite]
  unfold sendCall
  dsimp only
  by_cases hreset : (l.buffers c).ending = some .reset
  · rw [if_pos hreset]
    exact ⟨{ sendOut := .error .connectionResetError }, freshFds_nil _,
      (hflush (.error .connectionResetError)).trans rfl⟩
  rw [if_neg hreset]
  by_cases hfull : (l.buffers c).full = true
  · rw [if_pos hfull]
    exact ⟨{ sendOut := .error .blockingIOError }, freshFds_nil _,
      (hflush (.error .blockingIOError)).trans rfl⟩
  rw [if_neg hfull, hsend]
  generalize hn : min (b :: rest).length ((l.buffers c).capacity - (l.buffers c).used) = n
  have hpos : n ≠ 0 := by
    have hspace : ¬ (l.buffers c).capacity ≤ (l.buffers c).used := by
      simpa [Buffers.full] using hfull
    rw [List.length_cons] at hn
    omega
  refine ⟨{ sendOut := .ok n }, freshFds_nil _, (hflush (.ok n)).trans ?_⟩
  have hlate := EpollEchoServer.flush_extend l.server late fd c (b :: rest) n
  dsimp only
  rw [if_neg hpos, hlate]
  split_ifs <;> rfl

/-- The other system calls. -/
theorem finish_systemCall (h : l.Consistent) (hedge : l.server.mode = .edge)
    (hs : l.systemCall = some l') (late : Conn → Bytes) (answers' : Answers)
    (hfresh : FreshFds l'.server.net answers'.conns) :
    ∃ answers, FreshFds l.server.net answers.conns ∧
      l.site.finish (l.server.extend late) answers =
        l'.site.finish (l'.server.extend late) answers' := by
  have hhere := h.here
  unfold systemCall at hs
  split at hs
  · next fd hsite =>
    cases hs
    rw [hsite] at hhere ⊢
    obtain ⟨-, -, hnone⟩ := hhere
    unfold registerCall at hfresh ⊢
    rw [hnone, Option.isSome_none, if_neg Bool.false_ne_true] at hfresh ⊢
    refine ⟨answers', hfresh, ?_⟩
    rw [CallSite.finish, show (l.server.extend late).epoll.get fd = none from hnone,
      Option.isSome_none, if_neg Bool.false_ne_true]
    rfl
  · next fd c event hsite =>
    cases hs
    rw [hsite]
    refine ⟨{ sendOut := answers'.sendOut }, freshFds_nil _, ?_⟩
    have hnext := finish_writeSite (l.modifyCall fd .pollInOut (l.writeSite fd c event)) fd c event
      late answers'
    rw [writeSite_modifyCall] at hnext
    rw [CallSite.finish, EpollEchoServer.rearm_extend]
    exact hnext.symm
  · next fd c hsite =>
    cases hs
    rw [hsite] at hhere
    exact finish_sendCall hedge hhere.2.1 hsite late answers'
  · next fd hsite =>
    cases hs
    rw [hsite]
    refine ⟨{}, freshFds_nil _, ?_⟩
    rw [CallSite.finish, EpollEchoServer.rearm_extend]
    rfl
  · next fd hsite =>
    cases hs
    rw [hsite]
    refine ⟨{}, freshFds_nil _, ?_⟩
    rw [CallSite.finish, EpollEchoServer.closeClient_extend]
    rfl
  · cases hs

/-- The handler goes on as one that runs from the call site in one go. -/
theorem finish_call (h : l.Consistent) (hedge : l.server.mode = .edge)
    (hone : l.server.useOneshot = false) {a : Action} (hcall : a.isCall = true)
    (hs : l.after a = some l') (late : Conn → Bytes) (answers' : Answers)
    (hfresh : FreshFds l'.server.net answers'.conns) :
    ∃ answers, FreshFds l.server.net answers.conns ∧
      l.site.finish (l.server.extend late) answers =
        l'.site.finish (l'.server.extend late) answers' := by
  cases a with
  | accept fd =>
      rw [after] at hs
      split_ifs at hs with hsite
      exact finish_acceptCall hone hsite hs late answers' hfresh
  | recv k =>
      unfold after at hs
      dsimp only at hs
      split at hs
      · next hsite => exact finish_recvCall hsite hs late answers'
      · cases hs
  | call => exact finish_systemCall h hedge hs late answers' hfresh
  | _ => cases hcall

/-! ## Runs of a handler -/

/-- An action between two events of the loop: of a client, or a system call of the
handler. -/
def Action.inHandler : Action → Bool
  | .poll _ | .next | .stop => false
  | _ => true

/-- What arrived for connection `c` in a history. -/
def arrived (h : List Action) (c : Conn) : Bytes :=
  h.flatMap fun
    | .clientSend d data => if c = d then data else []
    | _ => []

/-- What arrives with one step more. -/
theorem arrived_append (h : List Action) (a : Action) (c : Conn) :
    arrived (h ++ [a]) c = arrived h c ++ arrived [a] c := List.flatMap_append ..

/-- The dispatch itself makes no system call. -/
theorem server_dispatch (hlinked : l.server.Linked) (fd : Fd) (event : Mask) :
    (l.dispatch fd event).server = l.server := by
  unfold dispatch
  by_cases hserver : fd = l.server.net.serverFd
  · rw [if_pos hserver]
  · rw [if_neg hserver]
    rcases hlinked.sock_cases hserver with hnone | ⟨c, hc⟩
    · rw [hnone]
    · rw [hc]

/-- What the dispatch begins with is the handler that `EpollEchoServer.dispatch` runs. -/
theorem finish_dispatch (hlinked : l.server.Linked) (hedge : l.server.mode = .edge) (fd : Fd)
    (event : Mask) (late : Conn → Bytes) (answers : Answers)
    (hfresh : FreshFds l.server.net answers.conns) :
    ∃ answer, (l.server.extend late).dispatch fd event answer =
      some ((l.dispatch fd event).site.finish (l.server.extend late) answers) := by
  by_cases hserver : fd = l.server.net.serverFd
  · refine ⟨.accept answers.conns answers.last, ?_⟩
    rw [EpollEchoServer.dispatch, if_pos ⟨hserver, hfresh⟩]
    apply congrArg some
    unfold EpollEchoServer.acceptClient dispatch
    rw [if_pos hserver]
    cases event.readable <;> rfl
  · refine ⟨.et answers.recvs answers.last answers.sendOut, ?_⟩
    rw [EpollEchoServer.dispatch, if_pos ⟨hserver, hedge⟩]
    apply congrArg some
    unfold EpollEchoServer.handleIoEt dispatch
    rw [if_neg hserver, show (l.server.extend late).fdToSock = l.server.fdToSock from rfl]
    rcases hlinked.sock_cases hserver with hnone | ⟨c, hc⟩
    · rw [hnone]
      rfl
    · rw [hc]
      dsimp only
      split_ifs
      · rfl
      · rfl
      · exact (finish_writeSite l fd c event late answers).symm

/-- A new registration is nothing to the mode. -/
theorem config_rearm (s : EpollEchoServer) (fd : Fd) (mask : Mask) :
    (s.rearm fd mask).mode = s.mode ∧ (s.rearm fd mask).useOneshot = s.useOneshot := by
  unfold EpollEchoServer.rearm
  split_ifs <;> exact ⟨rfl, rfl⟩

/-- The configuration stays. -/
theorem config_after (h : l.Consistent) {a : Action} (hstop : a ≠ .stop)
    (hs : l.after a = some l') :
    l'.server.mode = l.server.mode ∧ l'.server.useOneshot = l.server.useOneshot := by
  cases a with
  | connect capacity =>
      cases hs
      exact ⟨rfl, rfl⟩
  | clientSend c data | clientEnd c how | clientRead c n | poll fds =>
      rw [after] at hs
      split_ifs at hs
      cases hs
      exact ⟨rfl, rfl⟩
  | next =>
      unfold after at hs
      dsimp only at hs
      split at hs
      · next fd event rest hsite hbatch =>
        have hserver := server_dispatch (l := { l with batch := rest }) h.linked fd event
        cases hs
        rw [hserver]
        exact ⟨rfl, rfl⟩
      · cases hs
  | accept fd =>
      rw [after] at hs
      unfold acceptCall at hs
      split_ifs at hs <;> cases hs <;> exact ⟨rfl, rfl⟩
  | recv k =>
      unfold after recvCall at hs
      dsimp only at hs
      split at hs
      · split_ifs at hs
        · cases hs
          exact ⟨rfl, rfl⟩
        · split at hs <;> cases hs <;> exact ⟨rfl, rfl⟩
        · split at hs <;> cases hs <;> exact ⟨rfl, rfl⟩
      · cases hs
  | call =>
      have hhere := h.here
      unfold after systemCall at hs
      dsimp only at hs
      split at hs
      · next fd hsite =>
        cases hs
        rw [hsite] at hhere
        unfold registerCall
        rw [hhere.2.2, Option.isSome_none, if_neg Bool.false_ne_true]
        exact ⟨rfl, rfl⟩
      · cases hs
        exact config_rearm _ _ _
      · cases hs
        unfold sendCall
        dsimp only
        split_ifs <;> exact ⟨rfl, rfl⟩
      · cases hs
        exact config_rearm _ _ _
      · cases hs
        exact ⟨rfl, rfl⟩
      · cases hs
  | stop => exact absurd rfl hstop

/-- The server is in `EDGE` mode, without `EPOLLONESHOT`, to the end. -/
theorem run_config {serverFd : Fd} {h : List Action}
    (hr : Run step (fun _ a => a ≠ .stop) (start serverFd) h l) :
    l.server.mode = .edge ∧ l.server.useOneshot = false := by
  have hinv : l.Consistent ∧ l.server.mode = .edge ∧ l.server.useOneshot = false := by
    refine Run.invariant (fun _ l => l.Consistent ∧ l.server.mode = .edge ∧
      l.server.useOneshot = false) ⟨consistent_start serverFd, rfl, rfl⟩ ?_ hr
    rintro h l a e l' ⟨hcons, hedge, hone⟩ hstop hs
    have hafter := (after_of_step hs).2
    obtain ⟨hmode, honeshot⟩ := config_after hcons hstop hafter
    exact ⟨hcons.after hstop hafter, hmode.trans hedge, honeshot.trans hone⟩
  exact hinv.2

/-- An action of a client makes receive buffers longer, if anything. -/
theorem server_clientAction {a : Action} (hin : a.inHandler = true) (hcall : a.isCall = false)
    (hs : l.after a = some l') (late : Conn → Bytes) :
    l'.site = l.site ∧
      l'.server.extend late = l.server.extend fun c => arrived [a] c ++ late c := by
  have hsame : ∀ late' : Conn → Bytes, (∀ c, late' c = late c) →
      l.server.extend late = l.server.extend late' := fun late' heq => by rw [funext heq]
  cases a with
  | connect capacity =>
      cases hs
      exact ⟨rfl, hsame _ fun c => rfl⟩
  | clientSend d data =>
      rw [after] at hs
      split_ifs at hs
      cases hs
      have harrived : (fun c => arrived [.clientSend d data] c ++ late c) =
          fun c => (if c = d then data else []) ++ late c := by
        funext c
        rw [arrived, List.flatMap_singleton]
      rw [harrived]
      exact ⟨rfl, EpollEchoServer.clientSend_extend l.server late d data⟩
  | clientEnd c how | clientRead c n =>
      rw [after] at hs
      split_ifs at hs
      cases hs
      exact ⟨rfl, hsame _ fun c => rfl⟩
  | poll | next | stop => cases hin
  | accept | recv | call => cases hcall

/-- **Handlers are atomic.**  From a reachable state in which the loop takes the next event,
let the handler run to its end, with clients acting in between.  The server is then as if
all that arrived meanwhile had arrived before, and the handler had run in one go. -/
theorem handler_atomic {serverFd : Fd} {h₀ h : List Action} {rest : List (Fd × Mask)}
    (hr₀ : Run step (fun _ a => a ≠ .stop) (start serverFd) h₀ l) (hsite : l.site = .poll)
    (hbatch : l.batch = (fd, event) :: rest)
    (hr : Run step (fun _ a => a.inHandler = true) ({ l with batch := rest }.dispatch fd event)
      h l') (hdone : l'.site = .poll) :
    ∃ answer, (l.server.extend (arrived h)).dispatch fd event answer =
      some { state := l'.server } := by
  have hcons := run_consistent hr₀
  obtain ⟨hedge, hone⟩ := run_config hr₀
  have hserver : ({ l with batch := rest }.dispatch fd event).server = l.server :=
    server_dispatch (l := { l with batch := rest }) hcons.linked fd event
  have hinv : l'.Consistent ∧ l'.server.mode = .edge ∧ l'.server.useOneshot = false ∧
      ∀ late answers', FreshFds l'.server.net answers'.conns →
        ∃ answers, FreshFds l.server.net answers.conns ∧
          ({ l with batch := rest }.dispatch fd event).site.finish
            (l.server.extend fun c => arrived h c ++ late c) answers =
              l'.site.finish (l'.server.extend late) answers' := by
    refine Run.invariant (fun h l' => l'.Consistent ∧ l'.server.mode = .edge ∧
      l'.server.useOneshot = false ∧
      ∀ late answers', FreshFds l'.server.net answers'.conns →
        ∃ answers, FreshFds l.server.net answers.conns ∧
          ({ l with batch := rest }.dispatch fd event).site.finish
            (l.server.extend fun c => arrived h c ++ late c) answers =
              l'.site.finish (l'.server.extend late) answers') ?_ ?_ hr
    · rw [hserver]
      exact ⟨hcons.next hsite hbatch, hedge, hone, fun late answers' hfresh =>
        ⟨answers', hfresh, rfl⟩⟩
    · rintro h l₁ a e l₂ ⟨hcons₁, hedge₁, hone₁, hrest⟩ hin hs
      obtain ⟨rfl, hafter⟩ := after_of_step hs
      have hstop : e ≠ .stop := by
        rintro rfl
        cases hin
      obtain ⟨hmode, honeshot⟩ := config_after hcons₁ hstop hafter
      refine ⟨hcons₁.after hstop hafter, hmode.trans hedge₁, honeshot.trans hone₁,
        fun late answers' hfresh => ?_⟩
      have harrived : (fun c => arrived (h ++ [e]) c ++ late c) =
          fun c => arrived h c ++ (arrived [e] c ++ late c) := by
        funext c
        rw [arrived_append, List.append_assoc]
      rw [harrived]
      cases hcall : e.isCall with
      | true =>
          obtain ⟨answers₁, hfresh₁, heq₁⟩ :=
            finish_call hcons₁ hedge₁ hone₁ hcall hafter late answers' hfresh
          obtain ⟨answers, hfresh₀, heq₀⟩ := hrest late answers₁ hfresh₁
          have hnone : ∀ c, arrived [e] c = [] := by
            intro c
            cases e <;> first | rfl | cases hcall
          refine ⟨answers, hfresh₀, ?_⟩
          simp only [hnone, List.nil_append]
          rw [heq₀, heq₁]
      | false =>
          obtain ⟨hsame, hlate⟩ := server_clientAction hin hcall hafter late
          have hfresh₁ : FreshFds (l₁.server.extend fun c => arrived [e] c ++ late c).net
              answers'.conns := by
            rw [← hlate]
            exact hfresh
          obtain ⟨answers, hfresh₀, heq₀⟩ := hrest _ answers' hfresh₁
          exact ⟨answers, hfresh₀, by rw [heq₀, hsame, hlate]⟩
  obtain ⟨-, -, -, hfinish⟩ := hinv
  obtain ⟨answers, hfresh, heq⟩ := hfinish (fun _ => []) {} (freshFds_nil _)
  obtain ⟨answer, hanswer⟩ := finish_dispatch (l := { l with batch := rest }) hcons.linked hedge fd
    event (fun c => arrived h c ++ []) answers hfresh
  have harrived : (fun c => arrived h c ++ []) = arrived h := by
    funext c
    exact List.append_nil _
  rw [heq, hdone, CallSite.finish, EpollEchoServer.extend_nil, harrived] at hanswer
  exact ⟨answer, hanswer⟩

end EdgeLoop

end Io

/-
# End of stream in the echo servers

A client that has sent everything half-closes and goes on reading: `recv` hands over what is
left, then returns nothing.  Every server closes the connection there and drops its send
buffer, whatever is in it.  Since all of them echo, the bytes sent by then are the upper-casing
of those received exactly when

* the send buffer is empty before the handler is called, and
* in EDGE mode, the `recv` loop finds the end of the stream at once
  (`sent_all_at_end_iff`).

One byte that is read in one event, with the end of the stream in the next, is lost by each
server (`not_nothingLost`).
-/
import Cocurrency.Io.Echo

namespace Io

/-! ## The tables at the end of a stream -/

namespace Clients

variable {s : Clients}

/-- `recv` for `fd`, which is connection `c`, finds the end of the stream. -/
def EndsStream (s : Clients) (fd : Fd) (c : Conn) (k : ℕ) : Prop :=
  s.fdToSock.get fd = some (.client c) ∧ s.net.recvData c k = []

/-- What was sent on a connection is the upper-casing of what was received. -/
def SentAll (net : Net) (c : Conn) : Prop := (net.stream c).sent = upper (net.stream c).received

/-- Closing sockets changes nothing about the bytes. -/
theorem bytes_close (s : Clients) (fd : Fd) (c : Conn) :
    ((s.close fd).net.stream c).sent = (s.net.stream c).sent ∧
      ((s.close fd).net.stream c).received = (s.net.stream c).received := by
  cases hget : s.fdToSock.get fd with
  | none =>
      rw [net_close_of_none hget]
      exact ⟨rfl, rfl⟩
  | some sock =>
      have hnet : (s.close fd).net = s.net.close sock := by simp only [close, hget]
      rw [hnet]
      cases sock with
      | server => exact ⟨rfl, rfl⟩
      | client d =>
          constructor
          · apply Net.field_setStream Stream.sent
            rfl
          · apply Net.field_setStream Stream.received
            rfl

/-- Nor does it open one. -/
theorem isOpen_close_of_closed {c : Conn} (h : (s.net.stream c).isOpen = false) (fd : Fd) :
    ((s.close fd).net.stream c).isOpen = false := by
  cases hget : s.fdToSock.get fd with
  | none => rw [net_close_of_none hget, h]
  | some sock =>
      have hnet : (s.close fd).net = s.net.close sock := by simp only [close, hget]
      rw [hnet]
      cases sock with
      | server => exact h
      | client d =>
          by_cases hcd : c = d
          · rw [hcd]
            exact congrArg Stream.isOpen (Net.stream_setStream_self _ _ _)
          · exact (congrArg Stream.isOpen (Net.stream_setStream_of_ne _ _ hcd)).trans h

/-- Connection `c` is closed, with all sent if and only if `p`. -/
def EndedIff (net : Net) (c : Conn) (p : Prop) : Prop :=
  (net.stream c).isOpen = false ∧ (SentAll net c ↔ p)

/-- A connection that has ended is closed no further. -/
theorem EndedIff.close {c : Conn} {p : Prop} (h : EndedIff s.net c p) (fd : Fd) :
    EndedIff (s.close fd).net c p := by
  refine ⟨isOpen_close_of_closed h.1 fd, ?_⟩
  rw [SentAll, (bytes_close s fd c).1, (bytes_close s fd c).2]
  exact h.2

/-- The clean-up leaves a connection that has ended as it is. -/
theorem EndedIff.closeAll {σ : Type} (clients : σ → Clients) {closeClient : σ → Fd → σ}
    (hclose : ∀ s fd, clients (closeClient s fd) = (clients s).close fd) {c : Conn} {p : Prop}
    {s : σ} (h : EndedIff (clients s).net c p) :
    EndedIff (clients (closeAll clients closeClient s)).net c p := by
  unfold Clients.closeAll
  generalize ((clients s).fdToSock.items.map Prod.fst) = fds
  induction fds generalizing s with
  | nil => exact h
  | cons fd rest ih =>
      rw [List.foldl_cons]
      apply ih
      split_ifs
      · exact h
      · rw [hclose]
        exact h.close fd

/-- Connection `c` is under `fd`, and echoes. -/
def EchoesOn (s : Clients) (fd : Fd) (c : Conn) : Prop :=
  s.fdToSock.get fd = some (.client c) ∧
    (s.net.stream c).sent ++ s.sendBuf fd = upper (s.net.stream c).received

theorem Echoes.on (he : s.Echoes) (hl : s.Linked) {fd : Fd} {c : Conn}
    (hget : s.fdToSock.get fd = some (.client c)) :
    s.EchoesOn fd c ∧ (s.net.stream c).fd = fd := by
  obtain ⟨hopen, hfd⟩ := hl.open_of_sock fd c hget
  have hecho := (he c).1 hopen
  rw [hfd] at hecho
  exact ⟨⟨hget, hecho⟩, hfd⟩

/-- What is received is added to the send buffer. -/
theorem sendBuf_receive (s : Clients) (fd : Fd) (c : Conn) (k : ℕ) :
    (s.receive fd c k).sendBuf fd = s.sendBuf fd ++ upper (s.net.recvData c k) :=
  congrArg (fun o => o.getD []) (get_queue_self s.sendBufs fd (s.net.recvData c k))

/-- Receiving on `c` queues what is received. -/
theorem EchoesOn.receive {fd : Fd} {c : Conn} (h : s.EchoesOn fd c) (k : ℕ) :
    (s.receive fd c k).EchoesOn fd c := by
  refine ⟨h.1, ?_⟩
  have hstream : (s.receive fd c k).net.stream c = _ := Net.stream_setStream_self _ _ _
  rw [hstream, sendBuf_receive, ← List.append_assoc, h.2]
  exact (List.map_append ..).symm

/-- `_close_client` leaves all sent when nothing is in the buffer. -/
theorem EchoesOn.endedIff_close {fd : Fd} {c : Conn} (h : s.EchoesOn fd c) :
    EndedIff (s.close fd).net c (s.sendBuf fd = []) := by
  refine ⟨?_, ?_⟩
  · rw [net_close_of_client h.1, Net.stream_setStream_self]
  · rw [SentAll, (bytes_close s fd c).1, (bytes_close s fd c).2, ← h.2]
    exact List.self_eq_append_right

/-- Closing loses what is in the send buffer. -/
theorem endedIff_close (he : s.Echoes) (hl : s.Linked) {fd : Fd} {c : Conn}
    (hget : s.fdToSock.get fd = some (.client c)) :
    EndedIff (s.close fd).net c (s.sendBuf (s.net.stream c).fd = []) := by
  obtain ⟨hon, hfd⟩ := he.on hl hget
  rw [hfd]
  exact hon.endedIff_close

end Clients

open Clients

/-! ## `SelectEchoServer` -/

namespace SelectEchoServer

variable {s s' : SelectEchoServer}

/-- The handler closes connection `c` because `recv` finds the end of the stream. -/
def EndsStream (s : SelectEchoServer) (a : Call) (c : Conn) : Prop :=
  ∃ fd k, a = .read fd (.ok k) ∧ s.toClients.EndsStream fd c k

/-- The call of `select` that closes. -/
theorem endedIff_callStep (he : s.toClients.Echoes) (hl : s.toClients.Linked) {a : Call}
    {c : Conn} (hend : s.EndsStream a c) {e : Option SockError}
    (hs : s.callStep a = some (e, s')) :
    EndedIff s'.net c (s.sendBuf (s.net.stream c).fd = []) := by
  obtain ⟨fd, k, rfl, hget, hdata⟩ := hend
  have hread : s.handleRead fd (.ok k) = { state := s.closeClient fd false } := by
    simp only [handleRead, hget, hdata, if_true]
  rw [callStep, call] at hs
  split_ifs at hs
  rw [hread] at hs
  cases hs
  exact endedIff_close he hl hget

end SelectEchoServer

/-! ## `PollEchoServer` -/

namespace PollEchoServer

variable {s : PollEchoServer}

/-- The handler closes connection `c` because `recv` finds the end of the stream. -/
def EndsStream (l : Loop) (a : Action) (c : Conn) : Prop :=
  ∃ fd event k sendOut, a = .io fd event (.ok k) sendOut ∧ event.failed = false ∧
    event.readable = true ∧ l.server.toClients.EndsStream fd c k

/-- `_cleanup` has nothing to add. -/
theorem EndedIff.cleanup {c : Conn} {p : Prop} (h : EndedIff s.net c p) :
    EndedIff s.cleanup.net c p :=
  EndedIff.closeAll toClients (fun _ _ => rfl) h

/-- Nor has the end of the loop. -/
theorem endedIff_afterCall {r : Ran PollEchoServer} {c : Conn} {p : Prop}
    (h : EndedIff r.state.net c p) : EndedIff (afterCall r).2.server.net c p := by
  unfold afterCall
  split
  · exact EndedIff.cleanup h
  · exact h

/-- `_handle_write` is still called when the event carries `POLLOUT`, but the buffer is gone. -/
theorem toClients_handleIo_of_ended {fd : Fd} {c : Conn} {event : Mask} {k : ℕ}
    (hfailed : event.failed = false) (hreadable : event.readable = true)
    (hend : s.toClients.EndsStream fd c k) (sendOut : Except SockError ℕ) :
    (s.handleIo fd event (.ok k) sendOut).state.toClients = s.toClients.close fd := by
  obtain ⟨hget, hdata⟩ := hend
  have hread : s.handleRead fd (.client c) (.ok k) = { state := s.closeClient fd } := by
    simp only [handleRead, hdata, if_true]
  have hbuf : (s.closeClient fd).sendBufs.get fd = none := Dict.get_pop_self _ _
  simp only [handleIo, hget, hfailed, hreadable, if_true, hread]
  rw [if_neg Bool.false_ne_true, Ran.andThen_of_none rfl]
  dsimp only
  split_ifs
  · have hwrite : (s.closeClient fd).handleWrite fd (.client c) sendOut =
        (s.closeClient fd).modify fd .pollIn := by
      simp only [handleWrite, hbuf]
    rw [hwrite, toClients_modify]
    rfl
  · rfl

/-- The step of `poll` that closes. -/
theorem endedIff_step {l l' : Loop} (he : l.server.toClients.Echoes)
    (hl : l.server.toClients.Linked) {a : Action} {c : Conn} (hend : EndsStream l a c)
    {e : Event} (hs : step l a = some (e, l')) :
    EndedIff l'.server.net c (l.server.sendBuf (l.server.net.stream c).fd = []) := by
  obtain ⟨fd, event, k, sendOut, rfl, hfailed, hreadable, hend⟩ := hend
  rw [step] at hs
  split_ifs at hs
  obtain rfl : (afterCall _).2 = l' := congrArg Prod.snd (Option.some.inj hs)
  apply endedIff_afterCall
  rw [toClients_handleIo_of_ended hfailed hreadable hend]
  exact endedIff_close he hl hend.1

end PollEchoServer

/-! ## `EpollEchoServer` -/

namespace EpollEchoServer

variable {s : EpollEchoServer}

/-- One of the `recv`s of the drain loop finds the end of the stream. -/
def DrainEnds (c : Conn) : Net → List ℕ → Prop
  | _, [] => False
  | net, k :: rest => net.recvData c k = [] ∨ DrainEnds c (net.recv c k) rest

/-- The handler of the next event closes connection `c` because `recv` finds the end of the
stream. -/
def EndsStream (l : Loop) (a : Action) (c : Conn) : Prop :=
  ∃ fd event rest answer, l.batch = (fd, event) :: rest ∧ a = .handle answer ∧
    event.failed = false ∧ event.readable = true ∧
    l.server.fdToSock.get fd = some (.client c) ∧
    match answer with
    | .lt (.ok k) _ => l.server.net.recvData c k = []
    | .et recvs _ _ => DrainEnds c l.server.net recvs
    | _ => False

/-- Nothing waits to be sent on connection `c`, and what the drain loop receives is nothing but
the end of the stream. -/
def NothingPending (l : Loop) (a : Action) (c : Conn) : Prop :=
  l.server.sendBuf (l.server.net.stream c).fd = [] ∧
    match a with
    | .handle (.et recvs _ _) => ∃ k ∈ recvs.head?, l.server.net.recvData c k = []
    | _ => True

/-- A drain loop that finds the end of the stream closes the client.  By induction on the
answers of `recv`: after the first that is not empty there is something in the buffer. -/
theorem endedIff_drain {fd : Fd} {c : Conn} (last : SockError) (recvs : List ℕ) :
    ∀ (s : EpollEchoServer) (total : ℕ), s.toClients.EchoesOn fd c → DrainEnds c s.net recvs →
      ∃ r, drain fd c last s total recvs = .left r ∧
        EndedIff r.state.net c
          (s.sendBuf fd = [] ∧ ∃ k ∈ recvs.head?, s.net.recvData c k = []) := by
  induction recvs with
  | nil => exact fun _ _ _ hends => hends.elim
  | cons k rest ih =>
      intro s total hon hends
      rw [drain]
      split_ifs with hdata
      · refine ⟨_, rfl, ?_⟩
        show EndedIff (s.toClients.close fd).net c _
        simpa [hdata] using hon.endedIff_close
      · have hrest : DrainEnds c (s.net.recv c k) rest := hends.resolve_left hdata
        obtain ⟨r, hr, hended⟩ := ih (s.withClients (s.toClients.receive fd c k))
          (total + (s.net.recvData c k).length) (hon.receive k) hrest
        refine ⟨r, hr, hended.1, ?_⟩
        have hne : (s.toClients.receive fd c k).sendBuf fd ≠ [] := by
          rw [sendBuf_receive]
          simp [upper, hdata]
        rw [hended.2]
        exact iff_of_false (fun h => hne h.1) (fun h => by simp [hdata] at h)

/-- Nor has the end of the loop. -/
theorem EndedIff.afterCall {r : Ran EpollEchoServer} {c : Conn} {p : Prop}
    (h : EndedIff r.state.net c p) (rest : List (Fd × Mask)) :
    EndedIff (afterCall r rest).2.server.net c p := by
  unfold EpollEchoServer.afterCall
  split
  · exact EndedIff.closeAll toClients (fun _ _ => rfl) h
  · exact h

/-- The step of `epoll` that closes. -/
theorem endedIff_step {l l' : Loop} (he : l.server.toClients.Echoes)
    (hl : l.server.toClients.Linked) {a : Action} {c : Conn} (hend : EndsStream l a c)
    {e : Event} (hs : step l a = some (e, l')) :
    EndedIff l'.server.net c (NothingPending l a c) := by
  obtain ⟨fd, event, rest, answer, hbatch, rfl, hfailed, hreadable, hget, hanswer⟩ := hend
  obtain ⟨hon, hfd⟩ := he.on hl hget
  unfold step at hs
  rw [hbatch] at hs
  dsimp only at hs
  split at hs
  · next heq =>
    cases heq
    split at hs
    · next r hr =>
      obtain rfl : (afterCall r rest).2 = l' := congrArg Prod.snd (Option.some.inj hs)
      apply EndedIff.afterCall
      cases answer with
      | accept conns last => exact hanswer.elim
      | lt recvOut sendOut =>
          cases recvOut with
          | error e => exact hanswer.elim
          | ok k =>
              rw [dispatch] at hr
              split_ifs at hr
              cases hr
              simp only [handleIoLt, hget, hfailed, hreadable, hanswer, if_true, NothingPending,
                and_true, Bool.false_eq_true, if_false]
              exact endedIff_close he hl hget
      | et recvs last sendOut =>
          rw [dispatch] at hr
          split_ifs at hr
          cases hr
          obtain ⟨r, hdrain, hended⟩ := endedIff_drain last recvs l.server 0 hon hanswer
          rw [← hfd] at hended
          simp only [handleIoEt, hget, hfailed, hreadable, hdrain, if_true, Bool.false_eq_true,
            if_false]
          exact hended
    · cases hs
  · cases hs

end EpollEchoServer

/-! ## `NioReactorServer` -/

namespace NioReactorServer

variable {s s' : NioReactorServer}

/-- `on_read` closes handler `c` because `recv` finds the end of the stream. -/
def EndsStream (s : NioReactorServer) (a : Action) (c : Conn) : Prop :=
  ∃ k, a = .onRead c (.ok k) ∧ (s.handler c).closed = false ∧ s.net.recvData c k = []

/-- The callback that closes. -/
theorem endedIff_step (he : s.Echoes) (hl : s.Linked) {a : Action} {c : Conn}
    (hend : s.EndsStream a c) {e : Option SockError} (hs : s.step a = some (e, s')) :
    EndedIff s'.net c ((s.handler c).sendBuf = []) := by
  obtain ⟨k, rfl, hclosed, hdata⟩ := hend
  have hopen : (s.net.stream c).isOpen = true :=
    hl.isOpen (by rw [hclosed]; exact Bool.false_ne_true)
  have hread : s.onRead c (.ok k) = { state := s.close c } := by
    simp only [onRead, hclosed, hdata, if_true, Bool.false_eq_true, if_false]
  have hnet : (s.close c).net = s.net.setStream c { s.net.stream c with isOpen := false } := by
    rw [close, hclosed]
    rfl
  rw [step] at hs
  split_ifs at hs
  rw [hread] at hs
  cases hs
  rw [EndedIff, SentAll, hnet, Net.stream_setStream_self, ← (he c).1 hopen]
  exact ⟨rfl, List.self_eq_append_right⟩

end NioReactorServer

/-! ## All servers -/

/-- **End of stream.**  After any sequence of handler calls, a call that finds the end of the
stream of connection `c` closes it, and by then the upper-casing of every byte received has been
sent if and only if nothing was pending before the call. -/
theorem sent_all_at_end_iff (serverFd : Fd) (c : Conn) :
    (∀ h s a e s', Run SelectEchoServer.callStep anyStep (.start serverFd) h s →
      s.EndsStream a c → s.callStep a = some (e, s') →
        EndedIff s'.net c (s.sendBuf (s.net.stream c).fd = [])) ∧
    (∀ h l a e l', Run PollEchoServer.step anyStep ⟨.start serverFd, true⟩ h l →
      PollEchoServer.EndsStream l a c → PollEchoServer.step l a = some (e, l') →
        EndedIff l'.server.net c (l.server.sendBuf (l.server.net.stream c).fd = [])) ∧
    (∀ mode useOneshot h l a e l',
      Run EpollEchoServer.step anyStep ⟨.start mode useOneshot serverFd, [], true⟩ h l →
      EpollEchoServer.EndsStream l a c → EpollEchoServer.step l a = some (e, l') →
        EndedIff l'.server.net c (EpollEchoServer.NothingPending l a c)) ∧
    ∀ h s a e s', Run NioReactorServer.step anyStep (.start serverFd) h s →
      s.EndsStream a c → s.step a = some (e, s') →
        EndedIff s'.net c ((s.handler c).sendBuf = []) := by
  refine ⟨?_, ?_, ?_, ?_⟩
  · intro h s a e s' hr hend hs
    obtain ⟨hl, -, he⟩ := Clients.run_echoes SelectEchoServer.toClients serverFd rfl
      (fun _ _ _ _ => SelectEchoServer.relays_callStep) hr
    exact SelectEchoServer.endedIff_callStep he hl hend hs
  · intro h l a e l' hr hend hs
    obtain ⟨hl, -, he⟩ := Clients.run_echoes (fun l => l.server.toClients) serverFd rfl
      (fun _ _ _ _ => PollEchoServer.relays_step) hr
    exact PollEchoServer.endedIff_step he hl hend hs
  · intro mode useOneshot h l a e l' hr hend hs
    obtain ⟨hl, -, he⟩ := Clients.run_echoes (fun l => l.server.toClients) serverFd rfl
      (fun _ _ _ _ => EpollEchoServer.relays_step) hr
    exact EpollEchoServer.endedIff_step he hl hend hs
  · intro h s a e s' hr hend hs
    have hl : s.Linked := Run.invariant (fun _ s => s.Linked) ⟨fun _ => rfl, fun _ _ => rfl⟩
      (fun _ _ _ _ _ hlinked _ hs => (NioReactorServer.relays_step hs hlinked).1) hr
    exact NioReactorServer.endedIff_step (NioReactorServer.run_echoes hr) hl hend hs

/-- Whenever a connection is closed at the end of its stream, the upper-casing of every byte
received on it has been sent. -/
def NothingLost {σ α ε : Type} (step : σ → α → Option (ε × σ)) (net : σ → Net)
    (ends : σ → α → Conn → Prop) (s₀ : σ) : Prop :=
  ∀ h s a e s' c, Run step anyStep s₀ h s → ends s a c → step s a = some (e, s') →
    SentAll (net s') c

/-- The client of connection 0 sends one byte, which is read, and half-closes: every server
closes the connection with the byte in its send buffer. -/
theorem not_nothingLost :
    ¬ NothingLost SelectEchoServer.callStep (fun s => s.net) SelectEchoServer.EndsStream
      (.start 3) ∧
    ¬ NothingLost PollEchoServer.step (fun l => l.server.net) PollEchoServer.EndsStream
      ⟨.start 3, true⟩ ∧
    ¬ NothingLost EpollEchoServer.step (fun l => l.server.net) EpollEchoServer.EndsStream
      ⟨.start .level false 3, [], true⟩ ∧
    ¬ NothingLost EpollEchoServer.step (fun l => l.server.net) EpollEchoServer.EndsStream
      ⟨.start .edge false 3, [], true⟩ ∧
    ¬ NothingLost NioReactorServer.step (fun s => s.net) NioReactorServer.EndsStream
      (.start 3) := by
  have hlost : ¬ ([] : Bytes) = upper [97] := by decide
  refine ⟨fun h => hlost ?_, fun h => hlost ?_, fun h => hlost ?_, fun h => hlost ?_,
    fun h => hlost ?_⟩
  · have hr := run_of_replay SelectEchoServer.callStep (s := .start 3)
      [.accept (.ok (7, [97])), .read 7 (.ok 1)] rfl
    exact h _ _ (.read 7 (.ok 0)) _ _ 0 hr ⟨7, 0, rfl, rfl, rfl⟩ rfl
  · have hr := run_of_replay PollEchoServer.step (s := ⟨.start 3, true⟩)
      [.accept .pollIn (.ok (7, [97])), .io 7 .pollIn (.ok 1) (.ok 0)] rfl
    exact h _ _ (.io 7 .pollInOut (.ok 0) (.ok 1)) _ _ 0 hr
      ⟨7, .pollInOut, 0, .ok 1, rfl, rfl, rfl, rfl, rfl⟩ rfl
  · have hr := run_of_replay EpollEchoServer.step (s := ⟨.start .level false 3, [], true⟩)
      [.poll [(3, .pollIn)], .handle (.accept [(7, [97])] .blockingIOError),
        .poll [(7, .pollIn)], .handle (.lt (.ok 1) (.ok 0)), .poll [(7, .pollInOut)]] rfl
    exact h _ _ (.handle (.lt (.ok 0) (.ok 1))) _ _ 0 hr
      ⟨7, .pollInOut, [], .lt (.ok 0) (.ok 1), rfl, rfl, rfl, rfl, rfl, rfl⟩ rfl
  · have hr := run_of_replay EpollEchoServer.step (s := ⟨.start .edge false 3, [], true⟩)
      [.poll [(3, .pollIn)], .handle (.accept [(7, [97])] .blockingIOError),
        .poll [(7, .pollIn)]] rfl
    exact h _ _ (.handle (.et [1, 0] .blockingIOError (.ok 1))) _ _ 0 hr
      ⟨7, .pollIn, [], .et [1, 0] .blockingIOError (.ok 1), rfl, rfl, rfl, rfl, rfl,
        .inr (.inl rfl)⟩ rfl
  · have hr := run_of_replay NioReactorServer.step (s := .start 3)
      [.onAccept [(7, [97])] .blockingIOError, .onRead 0 (.ok 1)] rfl
    exact h _ _ (.onRead 0 (.ok 0)) _ _ 0 hr ⟨0, rfl, rfl, rfl⟩ rfl

/-- A client whose byte is echoed before its end of stream is read loses nothing. -/
theorem sent_all_at_end_iff_flushed :
    ∃ s : SelectEchoServer, (s.net.stream 0).isOpen = false ∧ (s.net.stream 0).sent = [65] ∧
      SentAll s.net 0 := by
  have hr := run_of_replay SelectEchoServer.callStep (s := .start 3)
    [.accept (.ok (7, [97])), .read 7 (.ok 1), .write 7 (.ok 1)] rfl
  have hended :=
    (sent_all_at_end_iff 3 0).1 _ _ (.read 7 (.ok 0)) _ _ hr ⟨7, 0, rfl, rfl, rfl⟩ rfl
  exact ⟨_, hended.1, rfl, hended.2.mpr rfl⟩

end Io

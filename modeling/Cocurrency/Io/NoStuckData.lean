/-
# No stuck data in `EDGE` mode

While the handler of an fd runs, what it leaves undone is what it does next.  So the invariant of
`Settled` fds survives every step, and without a pending event nothing is left for a client that
the server could do: the receive buffer is empty, and the send buffer of the server is empty or the
kernel's is full (`run_noStuckData`).
-/
import Cocurrency.Io.Settled

namespace Io

namespace EdgeLoop

open Clients

variable {l l' : EdgeLoop} {fd : Fd} {c : Conn} {event m : Mask}

/-! ## The handler of a client's event -/

/-- A step of the handler that has the fd in hand. -/
theorem Consistent.handle (h : l.Consistent) (hbusy : l.busy = [fd])
    (hc : l.server.fdToSock.get fd = some (.client c)) (honly : OnlyClient l l' c)
    (hbatch : l'.batch = l.batch)
    (htables : ∀ fd', fd' ≠ fd → l'.server.fdToSock.get fd' = l.server.fdToSock.get fd' ∧
      l'.server.sendBufs.get fd' = l.server.sendBufs.get fd' ∧
      l'.server.epoll.get fd' = l.server.epoll.get fd')
    (hready : ∀ fd', fd' ≠ fd → fd' ∈ l.ready → fd' ∈ l'.ready) (hlinked : l'.server.Linked)
    (hentry : l'.Entry fd) (hholds : l'.Holds l'.site) (hexits : l'.Exits fd l'.site) :
    l'.Consistent := by
  refine ⟨hlinked, ?_, fun fd' _ => ?_, hholds, fun fd' hfd' m howes => ?_⟩
  · rw [honly.next, honly.connected]
    exact h.accepted
  · by_cases hfd : fd' = fd
    · rw [hfd]
      exact hentry
    · obtain ⟨hsock, -, hepoll⟩ := htables fd' hfd
      refine (h.entry fd' fun heq => ?_).congr hsock hepoll
      rw [busy, heq] at hbusy
      cases hbusy
  · by_cases hfd : fd' = fd
    · subst hfd
      rcases hexits with hsome | ⟨-, hset⟩
      · refine absurd ?_ hfd'
        rw [busy, hsome]
        exact List.mem_singleton_self _
      · exact hset.any m
    · obtain ⟨hsock, hbuf, hepoll⟩ := htables fd' hfd
      rw [Owes, hbatch] at howes
      have hset := h.others fd' (by rw [hbusy]; simpa using hfd) m howes
      -- the fd of another socket
      have hother : l.server.fdToSock.get fd' ≠ some (.client c) := by
        intro hc'
        obtain ⟨-, hfd₁⟩ := h.linked.open_of_sock fd c hc
        obtain ⟨-, hfd₂⟩ := h.linked.open_of_sock fd' c hc'
        exact hfd (hfd₂.symm.trans hfd₁)
      exact hset.onlyClient honly hsock (by rw [sendBuf, sendBuf, hbuf]) hepoll (hready fd' hfd)
        (fun hc' => absurd hc' hother) (fun hc' => absurd hc' hother)

/-- The handler goes on to another call. -/
theorem Consistent.goto (h : l.Consistent) (hbusy : l.busy = [fd])
    (hc : l.server.fdToSock.get fd = some (.client c)) {site : CallSite}
    (hholds : l.Holds site) (hexits : l.Exits fd site) :
    { l with site := site }.Consistent := by
  have hentry : l.Entry fd := h.entry fd fun heq => by rw [busy, heq] at hbusy; cases hbusy
  exact h.handle hbusy hc ⟨rfl, rfl, fun _ _ => rfl, fun _ _ => rfl⟩ rfl
    (fun _ _ => ⟨rfl, rfl, rfl⟩) (fun _ _ hin => hin) h.linked hentry (hholds.move l.batch site)
    (hexits.imp_right fun hset => ⟨hset.1, hset.2.move l.batch site⟩)

/-- With nothing left to read, the handler looks at `EPOLLOUT`. -/
theorem holds_writeSite (hc : l.server.fdToSock.get fd = some (.client c))
    (h : l.Settled fd { writable := event.writable }) :
    l.Holds (l.writeSite fd c event) ∧ l.Exits fd (l.writeSite fd c event) := by
  unfold writeSite flushSite
  split_ifs with hwrite hempty
  · exact ⟨⟨⟨c, hc⟩, hempty⟩, Or.inl rfl⟩
  · rw [hwrite] at h
    exact ⟨⟨hc, hempty, h⟩, Or.inl rfl⟩
  · exact ⟨trivial, Or.inr ⟨rfl, h.weaken (fun hm => by cases hm) fun hm => absurd hm hwrite⟩⟩

/-- Nothing to send is kept for the listening socket. -/
theorem sendBuf_serverFd (hlinked : l.server.Linked) :
    l.server.sendBuf l.server.net.serverFd = [] := by
  have hserver := (hlinked.server_iff _).mpr rfl
  cases hget : l.server.sendBufs.get l.server.net.serverFd with
  | none => rw [sendBuf, hget, Option.getD_none]
  | some buf =>
      obtain ⟨c, hc⟩ := (hlinked.buf_iff l.server.net.serverFd).mp (by rw [hget]; rfl)
      rw [hserver] at hc
      cases hc

/-- The listening socket is settled when no connection waits for `accept`. -/
theorem settled_serverFd (hlinked : l.server.Linked)
    (hread : l.readable .server = true → l.server.net.serverFd ∈ l.ready) :
    l.Settled l.server.net.serverFd {} := by
  have hempty := sendBuf_serverFd hlinked
  have hserver := (hlinked.server_iff _).mpr rfl
  refine ⟨fun sock hsock hr => Or.inl ?_, fun _ _ _ hne => absurd hempty hne,
    fun _ _ hne => absurd hempty hne⟩
  cases hserver.symm.trans hsock
  exact hread hr

theorem Consistent.next (h : l.Consistent) (hsite : l.site = .poll) {rest : List (Fd × Mask)}
    (hbatch : l.batch = (fd, event) :: rest) :
    ({ l with batch := rest }.dispatch fd event).Consistent := by
  have hset : l.Settled fd event := by
    refine h.others fd ?_ event (Or.inl ?_)
    · rw [busy, hsite]
      exact List.not_mem_nil
    · rw [hbatch]
      exact List.mem_cons_self
  unfold dispatch
  dsimp only
  by_cases hserver : fd = l.server.net.serverFd
  · subst hserver
    rw [if_pos rfl]
    split_ifs with hread
    · exact h.take hsite hbatch trivial (Or.inl rfl)
    · refine h.take hsite hbatch trivial (Or.inr ⟨rfl, settled_serverFd h.linked fun hr => ?_⟩)
      exact (hset.read _ ((h.linked.server_iff _).mpr rfl) hr).resolve_right hread
  · rw [if_neg hserver]
    rcases h.linked.sock_cases hserver with hnone | ⟨c, hc⟩
    · rw [hnone]
      have hreg : l.server.epoll.get fd = none := by
        rcases h.entry fd (by simp [hsite]) with ⟨-, hsome⟩ | ⟨hreg, -⟩
        · rw [hnone] at hsome
          cases hsome
        · exact hreg
      exact h.take hsite hbatch trivial (Or.inr ⟨rfl, settled_of_closed hnone hreg⟩)
    · rw [hc]
      dsimp only
      split_ifs with hfailed hread
      · exact h.take hsite hbatch ⟨c, hc⟩ (Or.inl rfl)
      · exact h.take hsite hbatch ⟨hc, hread, fun _ => hset⟩ (Or.inl rfl)
      · have hset' : l.Settled fd { writable := event.writable } :=
          hset.weaken (fun hm => absurd hm hread) id
        have hwrite := holds_writeSite hc hset'
        exact h.take hsite hbatch hwrite.1 hwrite.2

/-- `recv(4096)` in the loop of `_handle_io_et`. -/
theorem Consistent.recv (h : l.Consistent) {totalRead k : ℕ}
    (hsite : l.site = .recv fd c event totalRead)
    (hs : l.recvCall fd c event totalRead k = some l') : l'.Consistent := by
  have hbusy : l.busy = [fd] := by rw [busy, hsite]; rfl
  have hhere := h.here
  rw [hsite] at hhere
  obtain ⟨hc, hevent, hset⟩ := hhere
  unfold recvCall at hs
  by_cases hunread : (l.server.net.stream c).unread ≠ []
  · rw [if_pos hunread] at hs
    split_ifs at hs with hk
    cases hs
    have hdata := l.server.net.recvData_ne_nil hk.1 hk.2.1
    refine h.handle hbusy hc ⟨rfl, rfl, fun _ hd => Net.stream_setStream_of_ne _ _ hd,
      fun _ _ => rfl⟩ rfl (fun fd' hfd' => ⟨rfl, get_queue_of_ne _ _ hfd', rfl⟩)
      (fun _ _ hin => hin) (h.linked.receive hc k) ?_ ⟨hc, hevent, fun htotal => ?_⟩ (Or.inl rfl)
    · exact h.entry fd (by simp [hsite])
    · exact absurd (List.eq_nil_of_length_eq_zero (Nat.eq_zero_of_add_eq_zero_left htotal)) hdata
  · rw [if_neg hunread] at hs
    split at hs
    · next hending =>
      cases hs
      split_ifs with htotal
      · exact h.goto hbusy hc hc (Or.inl rfl)
      · -- nothing was read, and nothing is left to read
        have hdrained : l.readable (.client c) = false := by
          simp only [readable, hending, Option.isSome_none, Bool.or_false]
          simpa using hunread
        have hwrite : l.Settled fd { writable := event.writable } := by
          have hold := hset (Nat.eq_zero_of_not_pos htotal)
          refine ⟨fun sock hsock hr => ?_, hold.write, hold.interest⟩
          cases hc.symm.trans hsock
          rw [hdrained] at hr
          cases hr
        exact h.goto hbusy hc (holds_writeSite hc hwrite).1 (holds_writeSite hc hwrite).2
    · cases hs
      exact h.goto hbusy hc ⟨c, hc⟩ (Or.inl rfl)

/-- `_rearm` with the bits that the server needs. -/
theorem Consistent.modify (h : l.Consistent) (hbusy : l.busy = [fd])
    (hc : l.server.fdToSock.get fd = some (.client c)) {mask : Mask}
    (hin : mask.readable = true) (hout : l.server.sendBuf fd ≠ [] → mask.writable = true)
    {site : CallSite}
    (hnext : (l.modifyCall fd mask site).Settled fd {} →
      (l.modifyCall fd mask site).Holds site ∧ (l.modifyCall fd mask site).Exits fd site) :
    (l.modifyCall fd mask site).Consistent := by
  obtain ⟨reg, hreg, -⟩ : ∃ reg, l.server.epoll.get fd = some reg ∧ reg.mask.readable = true :=
    (h.entry fd fun heq => by rw [busy, heq] at hbusy; cases hbusy).registered hc
  have hrearm := EpollEchoServer.rearm_of_registered (s := l.server) (by rw [hreg]; rfl) mask
  have hset : (l.modifyCall fd mask site).Settled fd {} := by
    unfold modifyCall
    rw [hrearm]
    exact settled_watch h.linked (Dict.get_set_self _ _ _) hin hout
  obtain ⟨hholds, hexits⟩ := hnext hset
  have hserver : (l.modifyCall fd mask site).server = l.server.rearm fd mask := rfl
  have hready : ∀ fd', fd' ∈ l.ready → fd' ∈ (l.modifyCall fd mask site).ready := by
    intro fd' hmem
    unfold modifyCall watch
    dsimp only
    split_ifs
    · exact hmem
    · exact List.mem_insert_of_mem hmem
  refine h.handle hbusy hc ⟨?_, rfl, fun d _ => ?_, fun _ _ => rfl⟩ rfl (fun fd' hfd' => ?_)
    (fun fd' _ => hready fd') ?_ ?_ hholds hexits
  · rw [hserver, hrearm]
  · rw [hserver, hrearm]
  · rw [hserver, hrearm]
    exact ⟨rfl, rfl, Dict.get_set_of_ne _ _ hfd'⟩
  · rw [hserver, hrearm]
    exact h.linked
  · rw [Entry, hserver, hrearm]
    refine Or.inl ⟨⟨_, Dict.get_set_self _ _ _, hin⟩, ?_⟩
    rw [show Dict.get _ fd = some (.client c) from hc]
    rfl

theorem writeSite_modifyCall (l : EdgeLoop) (fd : Fd) (c : Conn) (event mask : Mask)
    (site : CallSite) :
    (l.modifyCall fd mask site).writeSite fd c event = l.writeSite fd c event := by
  have hclients : (l.modifyCall fd mask site).server.toClients = l.server.toClients :=
    EpollEchoServer.toClients_rearm _ _ _
  rw [writeSite, flushSite, hclients]
  rfl

theorem Consistent.modifyInOut (h : l.Consistent) (hsite : l.site = .modifyInOut fd c event) :
    (l.modifyCall fd .pollInOut (l.writeSite fd c event)).Consistent := by
  have hc : l.server.fdToSock.get fd = some (.client c) := by
    have hhere := h.here
    rw [hsite] at hhere
    exact hhere
  refine h.modify (by rw [busy, hsite]; rfl) hc rfl (fun _ => rfl) fun hset => ?_
  have hclients : (l.modifyCall fd .pollInOut (l.writeSite fd c event)).server.toClients =
      l.server.toClients := EpollEchoServer.toClients_rearm _ _ _
  have hnext := holds_writeSite (c := c) (by rw [hclients]; exact hc)
    (hset.any { writable := event.writable })
  rw [writeSite_modifyCall] at hnext
  exact hnext

theorem Consistent.modifyIn (h : l.Consistent) (hsite : l.site = .modifyIn fd) :
    (l.modifyCall fd .pollIn .poll).Consistent := by
  have hhere := h.here
  rw [hsite] at hhere
  obtain ⟨⟨c, hc⟩, hempty⟩ := hhere
  exact h.modify (by rw [busy, hsite]; rfl) hc rfl (fun hne => absurd hempty hne)
    fun hset => ⟨trivial, Or.inr ⟨rfl, hset⟩⟩

/-- `send(buf)`: what is left did not fit. -/
theorem Consistent.send (h : l.Consistent) (hsite : l.site = .send fd c) :
    (l.sendCall fd c).Consistent := by
  have hbusy : l.busy = [fd] := by rw [busy, hsite]; rfl
  have hhere := h.here
  rw [hsite] at hhere
  obtain ⟨hc, -, hset⟩ := hhere
  unfold sendCall
  dsimp only
  by_cases hreset : (l.buffers c).ending = some .reset
  · rw [if_pos hreset]
    exact h.goto hbusy hc ⟨c, hc⟩ (Or.inl rfl)
  rw [if_neg hreset]
  by_cases hfull : (l.buffers c).full = true
  · rw [if_pos hfull]
    refine h.goto hbusy hc trivial (Or.inr ⟨rfl, fun sock hsock hr => ?_, fun sock hsock hw => ?_,
      hset.interest⟩)
    · exact (hset.read sock hsock hr).imp_right fun hm => by cases hm
    · cases hc.symm.trans hsock
      rw [writable, hfull] at hw
      cases hw
  rw [if_neg hfull]
  generalize hbuf : l.server.sendBuf fd = buf
  generalize hn : min buf.length ((l.buffers c).capacity - (l.buffers c).used) = n
  have hleft : (l.server.toClients.flush fd c buf n).sendBuf fd = buf.drop n := by
    rw [sendBuf, flush, Dict.get_set_self, Option.getD_some]
  have hself : ∀ b, (l.setBuffers c b).buffers c = b := fun b => Function.update_self ..
  have hunread : ((l.server.net.send c buf n).stream c).unread =
      (l.server.net.stream c).unread := by rw [Net.send, Net.stream_setStream_self]
  refine h.handle hbusy hc ⟨rfl, rfl, fun d hd => Net.stream_setStream_of_ne _ _ hd,
    (onlyClient_setBuffers l c _).buffers⟩ rfl
    (fun fd' hfd' => ⟨rfl, Dict.get_set_of_ne _ _ hfd', rfl⟩) (fun _ _ hin => hin)
    (h.linked.flush hc buf n) (h.entry fd (by simp [hsite])) ?_ ?_
  · dsimp only
    split_ifs with hdone
    · exact ⟨⟨c, hc⟩, hleft.trans hdone⟩
    · trivial
  · dsimp only
    split_ifs with hdone
    · exact Or.inl rfl
    · refine Or.inr ⟨rfl, fun sock hsock hr => ?_, fun sock hsock hw _ => ?_, fun reg hreg _ => ?_⟩
      · cases hc.symm.trans hsock
        have hold : l.readable (.client c) = true := by
          rw [readable, ← hunread]
          have hnew := hr
          rw [readable, hself] at hnew
          exact hnew
        exact (hset.read _ hc hold).imp_right fun hm => by cases hm
      · -- `n` bytes are all that fits
        cases hc.symm.trans hsock
        rw [writable, hself, Buffers.full] at hw
        have hlt : n < buf.length := by
          by_contra hge
          exact hdone (List.drop_eq_nil_of_le (Nat.le_of_not_lt hge))
        have hnot : ¬ (l.buffers c).capacity ≤ (l.buffers c).used + n := by simpa using hw
        omega
      · refine hset.interest reg hreg fun hempty => hdone ?_
        rw [hbuf] at hempty
        rw [hempty, List.drop_nil]

/-- `_close_client` -/
theorem Consistent.close (h : l.Consistent) (hsite : l.site = .close fd) :
    (l.closeCall fd).Consistent := by
  have hhere := h.here
  rw [hsite] at hhere
  obtain ⟨c, hc⟩ := hhere
  have hserver : fd ≠ l.server.net.serverFd := by
    intro heq
    rw [(h.linked.server_iff fd).mpr heq] at hc
    cases hc
  have hnet : (l.closeCall fd).server.net =
      l.server.net.setStream c { l.server.net.stream c with isOpen := false } :=
    net_close_of_client hc
  have hsock : (l.closeCall fd).server.fdToSock.get fd = none := Dict.get_pop_self _ _
  have hepoll : (l.closeCall fd).server.epoll = l.server.epoll.pop fd := by
    unfold closeCall EpollEchoServer.closeClient
    dsimp only
    rw [hc]
    rfl
  have hreg : (l.closeCall fd).server.epoll.get fd = none := by
    rw [hepoll]
    exact Dict.get_pop_self _ _
  refine h.handle (by rw [busy, hsite]; rfl) hc ⟨by rw [hnet]; rfl, rfl, fun d hd => ?_,
    fun _ _ => rfl⟩ rfl (fun fd' hfd' => ⟨Dict.get_pop_of_ne _ hfd', Dict.get_pop_of_ne _ hfd', ?_⟩)
    (fun fd' hfd' hin => List.mem_filter.mpr ⟨hin, by simpa using hfd'⟩) (h.linked.close hserver)
    (Or.inr ⟨hreg, hsock⟩) trivial (Or.inr ⟨rfl, settled_of_closed hsock hreg⟩)
  · rw [hnet]
    exact Net.stream_setStream_of_ne _ _ hd
  · rw [hepoll]
    exact Dict.get_pop_of_ne _ hfd'

/-! ## The listening socket -/

/-- `accept()` in `_accept_client`. -/
theorem Consistent.accept (h : l.Consistent) (hsite : l.site = .accept)
    (hs : l.acceptCall fd = some l') : l'.Consistent := by
  have hbusy : l.busy = [l.server.net.serverFd] := by rw [busy, hsite]; rfl
  have hentry : ∀ fd', l.Entry fd' := fun fd' => h.entry fd' (by simp [hsite])
  unfold acceptCall at hs
  split_ifs at hs with hwaits hfree
  · cases hs
    have hsock : ∀ fd', fd' ≠ fd → (l.server.toClients.addClient fd
        (l.server.net.stream l.server.net.next).unread).fdToSock.get fd' =
          l.server.fdToSock.get fd' := fun fd' hfd' => Dict.get_set_of_ne _ _ hfd'
    have hbuf : ∀ fd', (l.server.toClients.addClient fd
        (l.server.net.stream l.server.net.next).unread).sendBuf fd' =
          if fd' = fd then [] else l.server.sendBuf fd' := by
      intro fd'
      rw [sendBuf, addClient, Dict.get_set]
      split_ifs <;> rfl
    have hnew : l.server.epoll.get fd = none := by
      rcases hentry fd with ⟨-, hsome⟩ | ⟨hnone, -⟩
      · exact absurd hfree (h.linked.not_fdFree hsome)
      · exact hnone
    refine ⟨h.linked.addClient hfree _, hwaits, fun fd' hfd' => ?_, ⟨⟨_, Dict.get_set_self _ _ _⟩,
      (hbuf fd).trans (if_pos rfl), hnew⟩, fun fd' hfd' m howes => ?_⟩
    · have hne : fd' ≠ fd := fun heq => hfd' (congrArg CallSite.register heq.symm)
      exact (hentry fd').congr (hsock fd' hne) rfl
    · -- neither the listening socket nor the new connection
      have hserver : fd' ≠ l.server.net.serverFd := by
        rintro rfl
        exact hfd' List.mem_cons_self
      have hne : fd' ≠ fd := by
        rintro rfl
        exact hfd' (List.mem_cons_of_mem _ List.mem_cons_self)
      have hset := h.others fd' (by rw [hbusy]; simpa using hserver) m howes
      refine hset.congr (hsock fd' hne) ((hbuf fd').trans (if_neg hne)) rfl id
        (fun sock hs hr => Or.inl ?_) (fun sock _ hw _ => Or.inl hw)
      cases sock with
      | server => exact absurd ((h.linked.server_iff fd').mp hs) hserver
      | client d =>
          have hlt := h.linked.lt_next (h.linked.open_of_sock fd' d hs).1
          have hstream : (l.server.net.accept fd
              (l.server.net.stream l.server.net.next).unread).stream d =
                l.server.net.stream d := Net.stream_setStream_of_ne _ _ (Nat.ne_of_lt hlt)
          have hnew := hr
          rw [readable] at hnew
          rw [readable, ← hstream]
          exact hnew
  · cases hs
    -- no connection waits
    refine ⟨h.linked, h.accepted, fun fd' _ => hentry fd', trivial, fun fd' _ m howes => ?_⟩
    by_cases hserver : fd' = l.server.net.serverFd
    · subst hserver
      have hset : l.Settled l.server.net.serverFd {} := by
        refine settled_serverFd h.linked fun hr => absurd ?_ hwaits
        exact of_decide_eq_true hr
      exact (hset.any m).move l.batch .poll
    · exact (h.others fd' (by rw [hbusy]; simpa using hserver) m howes).move l.batch .poll

/-- `epoll.register` in `_accept_client`. -/
theorem Consistent.register (h : l.Consistent) (hsite : l.site = .register fd) :
    (l.registerCall fd).Consistent := by
  have hhere := h.here
  rw [hsite] at hhere
  obtain ⟨⟨c, hc⟩, hempty, hnone⟩ := hhere
  have hserver : fd ≠ l.server.net.serverFd := by
    intro heq
    rw [(h.linked.server_iff fd).mpr heq] at hc
    cases hc
  have hself : (l.server.epoll.set fd (EpollEchoServer.registration l.server.mode
      l.server.useOneshot .pollIn)).get fd = _ := Dict.get_set_self _ _ _
  unfold registerCall
  rw [hnone, Option.isSome_none, if_neg Bool.false_ne_true]
  refine ⟨h.linked, h.accepted, fun fd' _ => ?_, trivial, fun fd' hfd' m howes => ?_⟩
  · by_cases hfd : fd' = fd
    · subst hfd
      refine Or.inl ⟨⟨_, hself, rfl⟩, ?_⟩
      rw [show Dict.get _ fd' = some (.client c) from hc]
      rfl
    · have hold := h.entry fd' fun heq => hfd (CallSite.register.inj (hsite.symm.trans heq)).symm
      exact hold.congr rfl (Dict.get_set_of_ne _ _ hfd)
  · by_cases hfd : fd' = fd
    · subst hfd
      refine Settled.any ?_ m
      exact settled_watch h.linked hself rfl fun hne => absurd hempty hne
    · have hother : fd' ∉ l.busy := by
        rw [busy, hsite]
        intro hmem
        rcases List.mem_cons.mp hmem with heq | hmem
        · subst heq
          exact hfd' List.mem_cons_self
        · exact hfd (List.mem_singleton.mp hmem)
      refine (h.others fd' hother m howes).congr rfl rfl (Dict.get_set_of_ne _ _ hfd)
        (fun hin => ?_) (fun _ _ hr => Or.inl hr) (fun _ _ hw _ => Or.inl hw)
      unfold watch
      dsimp only
      split_ifs
      · exact hin
      · exact List.mem_insert_of_mem hin

/-! ## Runs -/

theorem consistent_start (serverFd : Fd) : (start serverFd).Consistent := by
  have hlinked := Linked.listen serverFd
  have hsock : ∀ fd, (start serverFd).server.fdToSock.get fd =
      if fd = serverFd then some .server else none := fun fd => Dict.get_set _ _ _ _
  have hepoll : ∀ fd, (start serverFd).server.epoll.get fd =
      if fd = serverFd then some (EpollEchoServer.registration .edge false .pollIn) else none :=
    fun fd => Dict.get_set _ _ _ _
  refine ⟨hlinked, Nat.le_refl _, fun fd _ => ?_, trivial, fun fd _ m _ => ?_⟩
  · rw [Entry, hsock, hepoll]
    split_ifs with hfd
    · exact Or.inl ⟨⟨_, rfl, rfl⟩, rfl⟩
    · exact Or.inr ⟨rfl, rfl⟩
  · by_cases hfd : fd = serverFd
    · subst hfd
      exact (settled_serverFd hlinked fun hr => by cases hr).any m
    · refine (settled_of_closed ?_ ?_).any m
      · rw [hsock, if_neg hfd]
      · rw [hepoll, if_neg hfd]

/-- Every action but `stop` keeps the invariant. -/
theorem Consistent.after (h : l.Consistent) {a : Action} (hstop : a ≠ .stop)
    (hs : l.after a = some l') : l'.Consistent := by
  cases a with
  | connect capacity =>
      cases hs
      exact h.connect capacity
  | clientSend c data =>
      rw [EdgeLoop.after] at hs
      split_ifs at hs
      cases hs
      exact h.clientSend c data
  | clientEnd c how =>
      rw [EdgeLoop.after] at hs
      split_ifs at hs
      cases hs
      exact h.clientEnd c how
  | clientRead c n =>
      rw [EdgeLoop.after] at hs
      split_ifs at hs
      cases hs
      exact h.clientRead c n
  | poll fds =>
      rw [EdgeLoop.after] at hs
      split_ifs at hs with hpoll
      cases hs
      exact h.poll hpoll.1 hpoll.2.1 fds
  | next =>
      unfold EdgeLoop.after at hs
      dsimp only at hs
      split at hs
      · next fd event rest hsite hbatch =>
        cases hs
        exact h.next hsite hbatch
      · cases hs
  | accept fd =>
      rw [EdgeLoop.after] at hs
      split_ifs at hs with hsite
      exact h.accept hsite hs
  | recv k =>
      unfold EdgeLoop.after at hs
      dsimp only at hs
      split at hs
      · next hsite => exact h.recv hsite hs
      · cases hs
  | call =>
      unfold EdgeLoop.after systemCall at hs
      dsimp only at hs
      split at hs
      · next hsite =>
        cases hs
        exact h.register hsite
      · next hsite =>
        cases hs
        exact h.modifyInOut hsite
      · next hsite =>
        cases hs
        exact h.send hsite
      · next hsite =>
        cases hs
        exact h.modifyIn hsite
      · next hsite =>
        cases hs
        exact h.close hsite
      · cases hs
  | stop => exact absurd rfl hstop

theorem after_of_step {a e : Action} (hs : step l a = some (e, l')) :
    e = a ∧ l.after a = some l' := by
  cases hafter : l.after a with
  | none => simp [step, hafter] at hs
  | some l'' =>
      simp only [step, hafter, Option.map_some, Option.some.injEq, Prod.mk.injEq] at hs
      exact ⟨hs.1.symm, congrArg some hs.2⟩

theorem run_consistent {serverFd : Fd} {h : List Action}
    (hr : Run step (fun _ a => a ≠ .stop) (start serverFd) h l) : l.Consistent := by
  refine Run.invariant (fun _ l => l.Consistent) (consistent_start serverFd) ?_ hr
  intro h l a e l' hinv hstop hs
  exact hinv.after hstop (after_of_step hs).2

/-- An fd without a pending event is settled. -/
theorem Consistent.settled (h : l.Consistent) (hpending : ¬ l.Pending fd) : l.Settled fd {} :=
  h.others fd (fun hin => hpending (Or.inr (Or.inr hin))) {}
    (Or.inr ⟨fun hin => hpending (Or.inr (Or.inl hin)), rfl⟩)

/-- **No stuck data.**  As long as the server is not stopped: an open client without a
pending event has nothing in its receive buffer, no end of the stream unread, and nothing
in its send buffer unless the kernel's is full; and without a pending event of the
listening socket no connection waits for `accept`. -/
theorem run_noStuckData {serverFd : Fd} {h : List Action} {l : EdgeLoop}
    (hr : Run step (fun _ a => a ≠ .stop) (start serverFd) h l) :
    (∀ c, (l.server.net.stream c).isOpen = true → ¬ l.Pending (l.server.net.stream c).fd →
      (l.server.net.stream c).unread = [] ∧ (l.buffers c).ending = none ∧
        (l.server.sendBuf (l.server.net.stream c).fd = [] ∨ (l.buffers c).full = true)) ∧
    (¬ l.Pending l.server.net.serverFd → l.connected = l.server.net.next) := by
  have hinv := run_consistent hr
  constructor
  · intro c hopen hpending
    have hset := hinv.settled hpending
    have hc := hinv.linked.sock_of_open c hopen
    have hread : ¬ l.readable (.client c) = true := by
      intro hr
      rcases hset.read _ hc hr with hin | hm
      · exact hpending (Or.inl hin)
      · cases hm
    have hquiet : (l.server.net.stream c).unread = [] ∧ (l.buffers c).ending = none := by
      simpa [readable] using hread
    refine ⟨hquiet.1, hquiet.2, ?_⟩
    by_contra hstuck
    obtain ⟨hbuf, hfull⟩ := not_or.mp hstuck
    rcases hset.write _ hc (by simpa [writable] using hfull) hbuf with hin | hm
    · exact hpending (Or.inl hin)
    · cases hm
  · intro hpending
    have hset := hinv.settled hpending
    refine Nat.le_antisymm (Nat.le_of_not_lt fun hwaits => ?_) hinv.accepted
    rcases hset.read _ ((hinv.linked.server_iff _).mpr rfl) (decide_eq_true hwaits) with hin | hm
    · exact hpending (Or.inl hin)
    · cases hm

/-- A client with a send buffer of two bytes sends three; the server reads them, finds that
it can write, and two bytes of the reply fit. -/
def partialSend : List Action :=
  [.connect 2, .poll [3], .next, .accept 7, .call, .accept 7, .clientSend 0 [97, 98, 99],
    .poll [7], .next, .recv 3, .recv 1, .call, .poll [7], .next, .call]

theorem run_noStuckData_partialSend :
    ∃ l : EdgeLoop, l.server.sendBuf 7 = [67] ∧ (l.server.net.stream 0).unread = [] ∧
      (l.buffers 0).full = true ∧ l.connected = l.server.net.next := by
  have hr : Run step (fun _ a => a ≠ .stop) (start 3) _ _ :=
    run_of_replay_of step partialSend (by simp [partialSend]) rfl
  obtain ⟨hclients, haccepted⟩ := run_noStuckData hr
  obtain ⟨hunread, -, hsent⟩ := hclients 0 rfl (by decide)
  exact ⟨_, rfl, hunread, hsent.resolve_left (by decide), haccepted (by decide)⟩

end EdgeLoop

end Io

/-
# Armed clients of the epoll server

An open client is `Armed` if epoll has an enabled registration for its fd that includes
`EPOLLIN`, and `EPOLLOUT` while there is something in its send buffer.  What each handler does to
the registration of its fd is `Touches`: it arms the fd again, or closes it, or leaves the
registration as the delivery of the event has left it.
-/
import Cocurrency.Io.Epoll

namespace Io

namespace EpollEchoServer

open Clients

/-! ## Armed clients -/

/-- The fd has an enabled registration with every bit the server needs. -/
def Armed (s : EpollEchoServer) (fd : Fd) : Prop :=
  ∃ reg, s.epoll.get fd = some reg ∧ reg.enabled = true ∧ reg.mask.readable = true ∧
    (s.sendBuf fd ≠ [] → reg.mask.writable = true)

/-- Every open client is armed, save those whose event has been delivered, with
`EPOLLONESHOT`, and waits for its handler. -/
def AllArmed (l : Loop) : Prop :=
  ∀ c, (l.server.net.stream c).isOpen = true →
    (l.server.useOneshot = true → (l.server.net.stream c).fd ∉ l.batch.map Prod.fst) →
      Armed l.server (l.server.net.stream c).fd

/-- The fd has a registration with every bit the server needs, enabled or not. -/
def Covered (s : EpollEchoServer) (fd : Fd) : Prop :=
  ∃ reg, s.epoll.get fd = some reg ∧ reg.mask.readable = true ∧
    (s.sendBuf fd ≠ [] → reg.mask.writable = true)

/-- A covered fd is registered. -/
theorem Covered.isSome {s : EpollEchoServer} {fd : Fd} (h : s.Covered fd) :
    (s.epoll.get fd).isSome = true := by
  obtain ⟨reg, hreg, -⟩ := h
  rw [hreg]
  rfl

/-- `_flush_send` finds nothing to send, sends everything, or closes. -/
def SendsAll (s : EpollEchoServer) (fd : Fd) (out : Except SockError ℕ) : Prop :=
  s.sendBuf fd = [] ∨
    match out with
    | .error e => e.endsSend = true
    | .ok n => n ≠ 0 ∧ (s.sendBuf fd).drop n = []

/-- The `recv` of a handler finds something: data, the end of the stream or a reset. -/
def Answer.ReadsSome : Answer → Prop
  | .et recvs last _ => recvs ≠ [] ∨ last ≠ .blockingIOError
  | _ => True

/-- What the kernel answers to the `send` of a handler. -/
def Answer.sendOut : Answer → Except SockError ℕ
  | .accept _ _ => .ok 0
  | .lt _ sendOut => sendOut
  | .et _ _ sendOut => sendOut

/-- The handler of the event closes the client, or arms it again. -/
def Rearms (s : EpollEchoServer) (fd : Fd) (event : Mask) (answer : Answer) : Prop :=
  event.failed = true ∨ (event.readable = true ∧ answer.ReadsSome) ∨
    (event.writable = true ∧ s.SendsAll fd answer.sendOut)

/-- With `EPOLLONESHOT`, the handler of a client's event arms it again. -/
def Action.Rearms (l : Loop) : Action → Prop
  | .handle answer =>
      ∀ x rest, l.batch = x :: rest → l.server.useOneshot = true → x.1 ≠ l.server.net.serverFd →
        (l.server.fdToSock.get x.1).isSome = true → l.server.Rearms x.1 x.2 answer
  | _ => True

/-! ## What a handler does to its fd -/

/-- From `s` to `s'` only the entries of `fd` change.  Either the client is closed and its
registration is gone, or it stays, covered, with the registration it had or a new one;
`rearmed` says that it is closed or has a new one. -/
structure Touches (s s' : EpollEchoServer) (fd : Fd) (rearmed : Prop) : Prop where
  mode_eq : s'.mode = s.mode
  useOneshot_eq : s'.useOneshot = s.useOneshot
  frame : ∀ fd', fd' ≠ fd → s'.fdToSock.get fd' = s.fdToSock.get fd' ∧
    s'.sendBufs.get fd' = s.sendBufs.get fd' ∧ s'.epoll.get fd' = s.epoll.get fd'
  own : (s'.fdToSock.get fd = none ∧ s'.epoll.get fd = none ∧ rearmed) ∨
    (s'.fdToSock.get fd = s.fdToSock.get fd ∧ s'.Covered fd ∧
      ((s'.epoll.get fd = s.epoll.get fd ∧ ¬ rearmed) ∨
        (∃ mask, s'.epoll.get fd = some (registration s.mode s.useOneshot mask) ∧ rearmed)))

variable {s s' : EpollEchoServer}

/-- New send buffers for the fd, then its client is closed. -/
theorem touches_close {fd : Fd} (clients : Clients) (hsock : clients.fdToSock = s.fdToSock)
    (hbuf : ∀ fd', fd' ≠ fd → clients.sendBufs.get fd' = s.sendBufs.get fd')
    (hkey : (s.fdToSock.get fd).isSome = true) {rearmed : Prop} (hrearmed : rearmed) :
    Touches s ((s.withClients clients).closeClient fd) fd rearmed := by
  have hepoll : ((s.withClients clients).closeClient fd).epoll = s.epoll.pop fd := by
    apply if_pos
    rw [toClients_withClients, hsock]
    exact hkey
  refine ⟨rfl, rfl, fun fd' hfd' => ⟨?_, ?_, ?_⟩, Or.inl ⟨Dict.get_pop_self _ _, ?_, hrearmed⟩⟩
  · rw [← hsock]
    exact Dict.get_pop_of_ne _ hfd'
  · exact (Dict.get_pop_of_ne _ hfd').trans (hbuf fd' hfd')
  · rw [hepoll, Dict.get_pop_of_ne _ hfd']
  · rw [hepoll, Dict.get_pop_self]

/-- New send buffers for the fd, then a new registration. -/
theorem touches_rearm {fd : Fd} (clients : Clients) {mask : Mask}
    (hreg : (s.epoll.get fd).isSome = true)
    (hsock : clients.fdToSock = s.fdToSock)
    (hbuf : ∀ fd', fd' ≠ fd → clients.sendBufs.get fd' = s.sendBufs.get fd')
    (hread : mask.readable = true) (hwrite : clients.sendBuf fd ≠ [] → mask.writable = true)
    {rearmed : Prop} (hrearmed : rearmed) :
    Touches s ((s.withClients clients).rearm fd mask) fd rearmed := by
  rw [rearm_of_registered (s := s.withClients clients) hreg]
  refine ⟨rfl, rfl, fun fd' hfd' => ⟨by rw [← hsock]; rfl, hbuf fd' hfd',
    Dict.get_set_of_ne _ _ hfd'⟩, Or.inr ⟨by rw [← hsock]; rfl, ?_, Or.inr ⟨mask, ?_, hrearmed⟩⟩⟩
  · exact ⟨_, Dict.get_set_self _ _ _, hread, hwrite⟩
  · exact Dict.get_set_self _ _ _

/-- The fd keeps its registration. -/
theorem touches_kept {fd : Fd} (clients : Clients) (hsock : clients.fdToSock = s.fdToSock)
    (hbuf : ∀ fd', fd' ≠ fd → clients.sendBufs.get fd' = s.sendBufs.get fd')
    (hcovered : (s.withClients clients).Covered fd) {rearmed : Prop} (hnot : ¬ rearmed) :
    Touches s (s.withClients clients) fd rearmed :=
  ⟨rfl, rfl, fun fd' hfd' => ⟨by rw [← hsock]; rfl, hbuf fd' hfd', rfl⟩,
    Or.inr ⟨by rw [← hsock]; rfl, hcovered, Or.inl ⟨rfl, hnot⟩⟩⟩

/-- `_flush_send` arms the fd again just if it sends all. -/
theorem touches_flushSend {fd : Fd} (hkey : (s.fdToSock.get fd).isSome = true)
    (hcovered : s.Covered fd) (c : Conn) (out : Except SockError ℕ)
    (hret : (s.flushSend fd c out).raised = none) :
    Touches s (s.flushSend fd c out).state fd (s.SendsAll fd out) := by
  obtain ⟨reg, hreg, hread, hwrite⟩ := hcovered
  have hsome : (s.epoll.get fd).isSome = true := by
    rw [hreg]
    rfl
  have hempty : s.sendBuf fd = [] →
      Touches s (s.rearm fd .pollIn) fd (s.SendsAll fd out) := fun hbuf =>
    touches_rearm s.toClients hsome rfl (fun _ _ => rfl) rfl
      (fun hne => absurd hbuf hne) (Or.inl hbuf)
  unfold flushSend at hret ⊢
  split
  · next hbuf => exact hempty (by rw [sendBuf, hbuf]; rfl)
  · next hbuf => exact hempty (by rw [sendBuf, hbuf]; rfl)
  · next b rest hbuf =>
    rw [hbuf] at hret
    dsimp only at hret
    have hsendBuf : s.sendBuf fd = b :: rest := by
      rw [sendBuf, hbuf]
      rfl
    have hne : s.sendBuf fd ≠ [] := by
      rw [hsendBuf]
      simp
    split
    · next e =>
      dsimp only at hret
      split_ifs at hret ⊢ with hwaits hends
      · refine touches_kept s.toClients rfl (fun _ _ => rfl)
          ⟨reg, hreg, hread, hwrite⟩ ?_
        rintro (hnil | hends)
        · exact hne hnil
        · have hblock : s.mode = .edge ∧ e = .blockingIOError := by
            simpa [waitsForSend] using hwaits
          rw [hblock.2] at hends
          cases hends
      · exact touches_close s.toClients rfl (fun _ _ => rfl) hkey (Or.inr hends)
    · next n =>
      dsimp only
      split_ifs with hn hdrop
      · refine touches_kept s.toClients rfl (fun _ _ => rfl)
          ⟨reg, hreg, hread, hwrite⟩ ?_
        rintro (hnil | ⟨hpos, -⟩)
        · exact hne hnil
        · exact hpos hn
      · refine touches_rearm (s.toClients.flush fd c (b :: rest) n) hsome rfl
          (fun fd' hfd' => Dict.get_set_of_ne _ _ hfd') rfl
          (fun hleft => absurd ?_ hleft) (Or.inr ⟨hn, by rw [hsendBuf]; exact hdrop⟩)
        rw [sendBuf, show (s.toClients.flush fd c (b :: rest) n).sendBufs.get fd = _ from
          Dict.get_set_self _ _ _]
        exact hdrop
      · refine touches_kept (s.toClients.flush fd c (b :: rest) n) rfl
          (fun fd' hfd' => Dict.get_set_of_ne _ _ hfd')
          ⟨reg, hreg, hread, fun _ => hwrite hne⟩ ?_
        rintro (hnil | ⟨-, hall⟩)
        · exact hne hnil
        · rw [hsendBuf] at hall
          exact hdrop hall

/-- So does the part of a handler that deals with `EPOLLOUT`. -/
theorem touches_flushIf {fd : Fd} (hkey : (s.fdToSock.get fd).isSome = true)
    (hcovered : s.Covered fd) (c : Conn) (event : Mask) (out : Except SockError ℕ)
    (hret : (s.flushIf fd c event out).raised = none) :
    Touches s (s.flushIf fd c event out).state fd
      (event.writable = true ∧ s.SendsAll fd out) := by
  unfold flushIf at hret ⊢
  split_ifs at hret ⊢ with hwritable
  · simpa [hwritable] using touches_flushSend hkey hcovered c out hret
  · exact touches_kept s.toClients rfl (fun _ _ => rfl) hcovered
      fun h => hwritable h.1

/-- Another condition for the same. -/
theorem Touches.congr {fd : Fd} {p q : Prop} (h : Touches s s' fd p) (hpq : p ↔ q) :
    Touches s s' fd q := by
  rw [← propext hpq]
  exact h

/-- After a new registration, whatever follows leaves the fd closed or with one. -/
theorem Touches.rearmed_trans {s'' : EpollEchoServer} {fd : Fd} {p q r : Prop}
    (h₁ : Touches s s' fd p) (hkey : (s'.fdToSock.get fd).isSome = true) (hp : p)
    (h₂ : Touches s' s'' fd q) (hr : r) : Touches s s'' fd r := by
  refine ⟨h₂.mode_eq.trans h₁.mode_eq, h₂.useOneshot_eq.trans h₁.useOneshot_eq,
    fun fd' hfd' => ?_, ?_⟩
  · obtain ⟨hsock₁, hbuf₁, hreg₁⟩ := h₁.frame fd' hfd'
    obtain ⟨hsock₂, hbuf₂, hreg₂⟩ := h₂.frame fd' hfd'
    exact ⟨hsock₂.trans hsock₁, hbuf₂.trans hbuf₁, hreg₂.trans hreg₁⟩
  · rcases h₁.own with ⟨hnone, -⟩ | ⟨hsock₁, -, ⟨-, hnot⟩ | ⟨mask, hreg₁, -⟩⟩
    · rw [hnone] at hkey
      cases hkey
    · exact absurd hp hnot
    · rcases h₂.own with ⟨hsock₂, hreg₂, -⟩ | ⟨hsock₂, hcovered, ⟨hsame, -⟩ | ⟨mask', hreg₂, -⟩⟩
      · exact Or.inl ⟨hsock₂, hreg₂, hr⟩
      · exact Or.inr ⟨hsock₂.trans hsock₁, hcovered, Or.inr ⟨mask, hsame.trans hreg₁, hr⟩⟩
      · rw [h₁.mode_eq, h₁.useOneshot_eq] at hreg₂
        exact Or.inr ⟨hsock₂.trans hsock₁, hcovered, Or.inr ⟨mask', hreg₂, hr⟩⟩

/-- Data has been read and the fd armed for both directions; what the `EPOLLOUT` part then
does leaves it armed. -/
theorem touches_read_flushIf {fd : Fd} (clients : Clients)
    (hreg : (s.epoll.get fd).isSome = true) (hkey : (s.fdToSock.get fd).isSome = true)
    (hsock : clients.fdToSock = s.fdToSock)
    (hbuf : ∀ fd', fd' ≠ fd → clients.sendBufs.get fd' = s.sendBufs.get fd') (c : Conn)
    (event : Mask) (out : Except SockError ℕ)
    (hret : (((s.withClients clients).rearm fd .pollInOut).flushIf fd c event out).raised = none)
    {rearmed : Prop} (hrearmed : rearmed) :
    Touches s (((s.withClients clients).rearm fd .pollInOut).flushIf fd c event out).state fd
      rearmed := by
  have hread : Touches s ((s.withClients clients).rearm fd .pollInOut) fd True :=
    touches_rearm clients hreg hsock hbuf rfl (fun _ => rfl) trivial
  have hkey' : (((s.withClients clients).rearm fd .pollInOut).fdToSock.get fd).isSome = true := by
    rw [toClients_rearm]
    exact (congrArg (fun d => (Dict.get d fd).isSome) hsock).trans hkey
  have hcovered : ((s.withClients clients).rearm fd .pollInOut).Covered fd := by
    rcases hread.own with ⟨hnone, -⟩ | ⟨-, hcovered, -⟩
    · rw [hnone] at hkey'
      cases hkey'
    · exact hcovered
  exact hread.rearmed_trans hkey' trivial (touches_flushIf hkey' hcovered c event out hret)
    hrearmed

/-- The handler in `LEVEL` mode. -/
theorem touches_handleIoLt {fd : Fd} {c : Conn} (hget : s.fdToSock.get fd = some (.client c))
    (hcovered : s.Covered fd) (event : Mask) (recvOut sendOut : Except SockError ℕ)
    (hret : (s.handleIoLt fd event recvOut sendOut).raised = none) :
    Touches s (s.handleIoLt fd event recvOut sendOut).state fd
      (s.Rearms fd event (.lt recvOut sendOut)) := by
  have hkey : (s.fdToSock.get fd).isSome = true := by
    rw [hget]
    rfl
  have hreg := hcovered.isSome
  unfold handleIoLt at hret ⊢
  rw [hget] at hret ⊢
  dsimp only at hret ⊢
  split_ifs at hret ⊢ with hfailed hreadable
  · exact touches_close s.toClients rfl (fun _ _ => rfl) hkey (Or.inl hfailed)
  · have hrearmed : s.Rearms fd event (.lt recvOut sendOut) := Or.inr (Or.inl ⟨hreadable, trivial⟩)
    cases recvOut with
    | error e =>
        dsimp only at hret ⊢
        split_ifs at hret ⊢
        exact touches_close s.toClients rfl (fun _ _ => rfl) hkey hrearmed
    | ok k =>
        dsimp only at hret ⊢
        split_ifs at hret ⊢
        · exact touches_close s.toClients rfl (fun _ _ => rfl) hkey hrearmed
        · exact touches_read_flushIf (s.toClients.receive fd c k) hreg hkey rfl
            (fun fd' hfd' => get_queue_of_ne _ _ hfd') c event sendOut hret hrearmed
  · apply (touches_flushIf hkey hcovered c event sendOut hret).congr
    simp [Rearms, hfailed, hreadable, Answer.sendOut]

/-- Where the `recv` loop stops at `EAGAIN`: only the tables have changed, for `fd`, and
something was read unless the first `recv` was it. -/
theorem drain_drained {fd : Fd} {c : Conn} {last : SockError} {recvs : List ℕ} :
    ∀ {s s' : EpollEchoServer} {total total' : ℕ},
      drain fd c last s total recvs = .drained s' total' →
      last = .blockingIOError ∧
        (recvs = [] ∧ s' = s ∧ total' = total ∨ recvs ≠ [] ∧ total < total') ∧
        s' = s.withClients s'.toClients ∧ s'.fdToSock = s.fdToSock ∧
        ∀ fd', fd' ≠ fd → s'.sendBufs.get fd' = s.sendBufs.get fd' := by
  induction recvs with
  | nil =>
      intro s s' total total' h
      rw [drain] at h
      split_ifs at h with hlast
      cases h
      exact ⟨hlast, Or.inl ⟨rfl, rfl, rfl⟩, rfl, rfl, fun _ _ => rfl⟩
  | cons k rest ih =>
      intro s s' total total' h
      rw [drain] at h
      split_ifs at h with hdata
      obtain ⟨hlast, hread, hwith, hsock, hbuf⟩ := ih h
      have hpos : 0 < (s.net.recvData c k).length := List.length_pos_of_ne_nil hdata
      refine ⟨hlast, Or.inr ⟨List.cons_ne_nil _ _, ?_⟩, hwith, hsock, fun fd' hfd' =>
        (hbuf fd' hfd').trans (get_queue_of_ne _ _ hfd')⟩
      rcases hread with ⟨-, -, htotal⟩ | ⟨-, htotal⟩
      · omega
      · omega

/-- Where the `recv` loop returns, the client is closed, and there was something to
find. -/
theorem drain_left {fd : Fd} {c : Conn} {last : SockError} {recvs : List ℕ} :
    ∀ {s : EpollEchoServer} {total : ℕ} {r : Ran EpollEchoServer},
      drain fd c last s total recvs = .left r → r.raised = none →
      (recvs ≠ [] ∨ last ≠ .blockingIOError) ∧ ∃ s', r.state = s'.closeClient fd ∧
        s' = s.withClients s'.toClients ∧ s'.fdToSock = s.fdToSock ∧
        ∀ fd', fd' ≠ fd → s'.sendBufs.get fd' = s.sendBufs.get fd' := by
  induction recvs with
  | nil =>
      intro s total r h hret
      rw [drain] at h
      split_ifs at h with hlast hends
      · cases h
        exact ⟨Or.inr hlast, s, rfl, rfl, rfl, fun _ _ => rfl⟩
      · cases h
        cases hret
  | cons k rest ih =>
      intro s total r h hret
      refine ⟨Or.inl (List.cons_ne_nil _ _), ?_⟩
      rw [drain] at h
      split_ifs at h with hdata
      · cases h
        exact ⟨s, rfl, rfl, rfl, fun _ _ => rfl⟩
      · obtain ⟨-, s', hclose, hwith, hsock, hbuf⟩ := ih h hret
        exact ⟨s', hclose, hwith, hsock, fun fd' hfd' =>
          (hbuf fd' hfd').trans (get_queue_of_ne _ _ hfd')⟩

/-- The handler in `EDGE` mode. -/
theorem touches_handleIoEt {fd : Fd} {c : Conn} (hget : s.fdToSock.get fd = some (.client c))
    (hcovered : s.Covered fd) (event : Mask) (recvs : List ℕ) (last : SockError)
    (sendOut : Except SockError ℕ)
    (hret : (s.handleIoEt fd event recvs last sendOut).raised = none) :
    Touches s (s.handleIoEt fd event recvs last sendOut).state fd
      (s.Rearms fd event (.et recvs last sendOut)) := by
  have hkey : (s.fdToSock.get fd).isSome = true := by
    rw [hget]
    rfl
  have hreg := hcovered.isSome
  unfold handleIoEt at hret ⊢
  rw [hget] at hret ⊢
  dsimp only at hret ⊢
  split_ifs at hret ⊢ with hfailed hreadable
  · exact touches_close s.toClients rfl (fun _ _ => rfl) hkey (Or.inl hfailed)
  · cases hdrain : drain fd c last s 0 recvs with
    | left r =>
        rw [hdrain] at hret
        obtain ⟨hsome, s', hclose, hwith, hsock, hbuf⟩ := drain_left hdrain hret
        dsimp only
        rw [hclose, hwith]
        exact touches_close s'.toClients hsock hbuf hkey
          (Or.inr (Or.inl ⟨hreadable, hsome⟩))
    | drained s' total =>
        rw [hdrain] at hret
        dsimp only at hret ⊢
        obtain ⟨hlast, hread, hwith, hsock, hbuf⟩ := drain_drained hdrain
        rcases hread with ⟨hnil, hs', htotal⟩ | ⟨hne, htotal⟩
        · -- nothing was read: what counts is the `EPOLLOUT` part
          rw [htotal, hs', if_neg (Nat.lt_irrefl 0)] at hret ⊢
          apply (touches_flushIf hkey hcovered c event sendOut hret).congr
          simp [Rearms, hfailed, hnil, hlast, Answer.ReadsSome, Answer.sendOut]
        · rw [if_pos htotal] at hret ⊢
          rw [hwith] at hret ⊢
          exact touches_read_flushIf s'.toClients hreg hkey hsock hbuf c event sendOut
            hret (Or.inr (Or.inl ⟨hreadable, Or.inl hne⟩))
  · apply (touches_flushIf hkey hcovered c event sendOut hret).congr
    simp [Rearms, hfailed, hreadable, Answer.sendOut]

/-! ## The tables and the batch -/

/-- The registered fds are the keys of `_fd_to_sock`, clients are covered, and the flags of
the registrations are as configured. -/
structure Tables (s : EpollEchoServer) : Prop where
  linked : s.Linked
  keys : ∀ fd, (s.epoll.get fd).isSome = (s.fdToSock.get fd).isSome
  covered : ∀ fd c, s.fdToSock.get fd = some (.client c) → s.Covered fd
  oneshot_eq : ∀ fd reg, s.epoll.get fd = some reg → reg.oneshot = s.useOneshot
  enabled : s.useOneshot = false → ∀ fd reg, s.epoll.get fd = some reg → reg.enabled = true

/-- The batch has no fd twice, only keys, and with `EPOLLONESHOT` they are disabled. -/
structure BatchOk (s : EpollEchoServer) (batch : List (Fd × Mask)) : Prop where
  nodup : (batch.map Prod.fst).Nodup
  key : ∀ fd ∈ batch.map Prod.fst, (s.fdToSock.get fd).isSome = true
  disabled : s.useOneshot = true → ∀ fd ∈ batch.map Prod.fst, ∀ reg,
    s.epoll.get fd = some reg → reg.enabled = false

/-- Every client is armed, save those in the batch with `EPOLLONESHOT`. -/
def ArmedBut (s : EpollEchoServer) (batch : List (Fd × Mask)) : Prop :=
  ∀ fd c, s.fdToSock.get fd = some (.client c) →
    (s.useOneshot = true → fd ∉ batch.map Prod.fst) → s.Armed fd

theorem allArmed_iff {l : Loop} (h : l.server.Linked) :
    AllArmed l ↔ ArmedBut l.server l.batch := by
  constructor
  · intro hall fd c hget hbatch
    obtain ⟨hopen, hfd⟩ := h.open_of_sock fd c hget
    rw [← hfd] at hbatch ⊢
    exact hall c hopen hbatch
  · intro hall c hopen hbatch
    exact hall _ c (h.sock_of_open c hopen) hbatch

/-- A covered fd is armed when its registration is enabled. -/
theorem Covered.armed {fd : Fd} (h : s.Covered fd)
    (henabled : ∀ reg, s.epoll.get fd = some reg → reg.enabled = true) : s.Armed fd := by
  obtain ⟨reg, hreg, hread, hwrite⟩ := h
  exact ⟨reg, hreg, henabled reg hreg, hread, hwrite⟩

/-- What is asked of an fd is about its own entries. -/
theorem Covered.congr {fd : Fd} (h : s.Covered fd)
    (hbuf : s'.sendBufs.get fd = s.sendBufs.get fd) (hreg : s'.epoll.get fd = s.epoll.get fd) :
    s'.Covered fd := by
  rw [Covered, sendBuf, hbuf, hreg]
  exact h

/-- An armed fd that has not been touched. -/
theorem Armed.congr {fd : Fd} (h : s.Armed fd)
    (hbuf : s'.sendBufs.get fd = s.sendBufs.get fd) (hreg : s'.epoll.get fd = s.epoll.get fd) :
    s'.Armed fd := by
  rw [Armed, sendBuf, hbuf, hreg]
  exact h

/-- From `s` to `s'` only the entries of `fd` change: the tables stay in order if those are,
and its registration is the old one or as configured. -/
theorem Tables.of_frame (ht : Tables s) (hlinked : s'.Linked)
    (honeshot : s'.useOneshot = s.useOneshot) {fd : Fd}
    (hframe : ∀ fd', fd' ≠ fd → s'.fdToSock.get fd' = s.fdToSock.get fd' ∧
      s'.sendBufs.get fd' = s.sendBufs.get fd' ∧ s'.epoll.get fd' = s.epoll.get fd')
    (hkey : (s'.epoll.get fd).isSome = (s'.fdToSock.get fd).isSome)
    (hcovered : ∀ c, s'.fdToSock.get fd = some (.client c) → s'.Covered fd)
    (hreg : ∀ reg, s'.epoll.get fd = some reg →
      s.epoll.get fd = some reg ∨ ∃ mask, reg = registration s.mode s.useOneshot mask) :
    Tables s' := by
  have hregs : ∀ fd' reg, s'.epoll.get fd' = some reg →
      s.epoll.get fd' = some reg ∨ ∃ mask, reg = registration s.mode s.useOneshot mask := by
    intro fd' reg hget
    by_cases hfd : fd' = fd
    · subst hfd
      exact hreg reg hget
    · rw [(hframe fd' hfd).2.2] at hget
      exact Or.inl hget
  refine ⟨hlinked, fun fd' => ?_, fun fd' c hget => ?_, fun fd' reg hget => ?_,
    fun hoff fd' reg hget => ?_⟩
  · by_cases hfd : fd' = fd
    · rw [hfd]
      exact hkey
    · obtain ⟨hsock, -, hepoll⟩ := hframe fd' hfd
      rw [hsock, hepoll]
      exact ht.keys fd'
  · by_cases hfd : fd' = fd
    · rw [hfd] at hget ⊢
      exact hcovered c hget
    · obtain ⟨hsock, hbuf, hepoll⟩ := hframe fd' hfd
      rw [hsock] at hget
      exact (ht.covered fd' c hget).congr hbuf hepoll
  · rw [honeshot]
    rcases hregs fd' reg hget with hold | ⟨mask, hnew⟩
    · exact ht.oneshot_eq fd' reg hold
    · rw [hnew]
      rfl
  · rw [honeshot] at hoff
    rcases hregs fd' reg hget with hold | ⟨mask, hnew⟩
    · exact ht.enabled hoff fd' reg hold
    · rw [hnew]
      rfl

/-- One event less. -/
theorem BatchOk.tail {x : Fd × Mask} {rest : List (Fd × Mask)} (hb : BatchOk s (x :: rest)) :
    x.1 ∉ rest.map Prod.fst ∧ BatchOk s rest := by
  have hnodup := hb.nodup
  rw [List.map_cons, List.nodup_cons] at hnodup
  exact ⟨hnodup.1, hnodup.2, fun fd hmem => hb.key fd (List.mem_cons_of_mem _ hmem),
    fun hon fd hmem => hb.disabled hon fd (List.mem_cons_of_mem _ hmem)⟩

/-- A batch without `fd` stays in order when only the entries of `fd` change. -/
theorem BatchOk.of_frame {batch : List (Fd × Mask)} (hb : BatchOk s batch)
    (honeshot : s'.useOneshot = s.useOneshot) {fd : Fd} (hout : fd ∉ batch.map Prod.fst)
    (hframe : ∀ fd', fd' ≠ fd → s'.fdToSock.get fd' = s.fdToSock.get fd' ∧
      s'.sendBufs.get fd' = s.sendBufs.get fd' ∧ s'.epoll.get fd' = s.epoll.get fd') :
    BatchOk s' batch := by
  have hother : ∀ fd' ∈ batch.map Prod.fst, fd' ≠ fd := by
    rintro fd' hmem rfl
    exact hout hmem
  refine ⟨hb.nodup, fun fd' hmem => ?_, fun hon fd' hmem reg hreg => ?_⟩
  · rw [(hframe fd' (hother fd' hmem)).1]
    exact hb.key fd' hmem
  · rw [honeshot] at hon
    rw [(hframe fd' (hother fd' hmem)).2.2] at hreg
    exact hb.disabled hon fd' hmem reg hreg

namespace Touches

variable {fd : Fd} {rearmed : Prop}

/-- The registration of the fd afterwards. -/
theorem reg_cases (h : Touches s s' fd rearmed) {reg : Registration}
    (hreg : s'.epoll.get fd = some reg) :
    (s.epoll.get fd = some reg ∧ ¬ rearmed) ∨
      (∃ mask, reg = registration s.mode s.useOneshot mask) := by
  rcases h.own with ⟨-, hnone, -⟩ | ⟨-, -, ⟨hsame, hnot⟩ | ⟨mask, hnew, -⟩⟩
  · rw [hnone] at hreg
    cases hreg
  · exact Or.inl ⟨hsame.symm.trans hreg, hnot⟩
  · rw [hnew] at hreg
    exact Or.inr ⟨mask, (Option.some.inj hreg).symm⟩

/-- A handler of a client's event keeps the tables in order. -/
theorem tables (h : Touches s s' fd rearmed) (hkey : (s.fdToSock.get fd).isSome = true)
    (ht : Tables s) (hlinked : s'.Linked) : Tables s' := by
  refine ht.of_frame hlinked h.useOneshot_eq h.frame ?_ ?_
    fun reg hreg => (h.reg_cases hreg).imp_left And.left
  · rcases h.own with ⟨hsock, hnone, -⟩ | ⟨hsock, ⟨reg, hsome, -⟩, -⟩
    · rw [hsock, hnone]
      rfl
    · rw [hsock, hkey, hsome]
      rfl
  · intro c hget
    rcases h.own with ⟨hsock, -, -⟩ | ⟨-, hcovered, -⟩
    · rw [hsock] at hget
      cases hget
    · exact hcovered

/-- **One handler.**  The clients are all armed afterwards if and only if, with
`EPOLLONESHOT`, the handler closed its client or armed it again. -/
theorem armedBut_iff (h : Touches s s' fd rearmed) {c : Conn}
    (hget : s.fdToSock.get fd = some (.client c)) (ht' : Tables s') {event : Mask}
    {rest : List (Fd × Mask)} (hb : BatchOk s ((fd, event) :: rest))
    (harmed : ArmedBut s ((fd, event) :: rest)) :
    ArmedBut s' rest ↔ (s.useOneshot = true → rearmed) := by
  constructor
  · intro hall honeshot
    rcases h.own with ⟨-, -, hre⟩ | ⟨hsock, -, ⟨hsame, -⟩ | ⟨mask, -, hre⟩⟩
    · exact hre
    · -- it kept the disabled registration, so it is not armed
      obtain ⟨reg, hreg, henabled, -⟩ := hall fd c (hsock.trans hget) fun _ => hb.tail.1
      rw [hb.disabled honeshot fd List.mem_cons_self reg (hsame.symm.trans hreg)] at henabled
      cases henabled
    · exact hre
  · intro hre fd' c' hget' hrest
    by_cases hfd : fd' = fd
    · rw [hfd] at hget' ⊢
      refine (ht'.covered fd c' hget').armed fun reg hreg => ?_
      cases honeshot : s.useOneshot with
      | false => exact ht'.enabled (h.useOneshot_eq.trans honeshot) fd reg hreg
      | true =>
          rcases h.reg_cases hreg with ⟨-, hnot⟩ | ⟨mask, hnew⟩
          · exact absurd (hre honeshot) hnot
          · rw [hnew]
            rfl
    · obtain ⟨hsock, hbuf, hreg⟩ := h.frame fd' hfd
      rw [hsock] at hget'
      refine (harmed fd' c' hget' fun honeshot hmem => ?_).congr hbuf hreg
      rcases List.mem_cons.mp hmem with heq | hmem
      · exact hfd heq
      · exact hrest (h.useOneshot_eq.trans honeshot) hmem

end Touches

end EpollEchoServer

end Io

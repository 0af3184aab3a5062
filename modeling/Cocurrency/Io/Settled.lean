/-
# Settled fds in `EDGE` mode

An event for an fd is pending while the fd is in epoll's ready list, while a reported
event of it waits in the batch, and while its handler runs.

The invariant is about every fd and what the server is going to look at.  An fd is
`Settled` but for the bits of a mask if, whenever it is ready for another bit that the
server needs, it is in the ready list.  An fd with no pending event is settled outright;
one with an event in the batch, but for the bits of that event; and the one whose handler
runs, but for what the handler does next (`Holds`).
-/
import Cocurrency.Io.Edge

namespace Io

/-! ## The kernel's table of fds -/

/-- `fd_to_sock` is right about the open sockets. -/
theorem Clients.Linked.sockAt_eq {s : Clients} (h : s.Linked) (fd : Fd) :
    s.net.sockAt fd = s.fdToSock.get fd := by
  unfold Net.sockAt
  split_ifs with hserver
  · exact ((h.server_iff fd).mpr hserver).symm
  · cases hfind : (List.range s.net.next).find? fun c =>
        (s.net.stream c).isOpen && (s.net.stream c).fd = fd with
    | some c =>
        have hc := List.find?_some hfind
        rw [Bool.and_eq_true, decide_eq_true_eq] at hc
        have hget := h.sock_of_open c hc.1
        rw [hc.2] at hget
        exact hget.symm
    | none =>
        rw [List.find?_eq_none] at hfind
        rcases h.sock_cases hserver with hget | ⟨c, hget⟩
        · exact hget.symm
        · obtain ⟨hopen, hfd⟩ := h.open_of_sock fd c hget
          have hno := hfind c (List.mem_range.mpr (h.lt_next hopen))
          rw [hopen, hfd] at hno
          exact absurd (decide_eq_true rfl) hno

/-- `recv` hands over something if there is something. -/
theorem Net.recvData_ne_nil (net : Net) {c : Conn} {k : ℕ} (hpos : 0 < k)
    (hle : k ≤ (net.stream c).unread.length) : net.recvData c k ≠ [] := by
  apply List.ne_nil_of_length_pos
  rw [Net.recvData, List.length_take]
  have hsize : 0 < recvSize := by decide
  omega

/-! ## The invariant -/

/-- The fds whose handler runs.  The fd of a connection that is accepted and not registered
yet is in the hands of `_accept_client`. -/
def CallSite.fds (serverFd : Fd) : CallSite → List Fd
  | .poll | .done => []
  | .accept => [serverFd]
  | .register fd => [serverFd, fd]
  | .recv fd _ _ _ | .modifyInOut fd _ _ | .send fd _ | .modifyIn fd | .close fd => [fd]

namespace EdgeLoop

open Clients

/-- The fds whose handler runs. -/
def busy (l : EdgeLoop) : List Fd := l.site.fds l.server.net.serverFd

/-- An event of the fd is pending: in epoll's ready list, in the batch, or being handled. -/
def Pending (l : EdgeLoop) (fd : Fd) : Prop :=
  fd ∈ l.ready ∨ fd ∈ l.batch.map Prod.fst ∨ fd ∈ l.busy

instance (l : EdgeLoop) (fd : Fd) : Decidable (l.Pending fd) := by
  unfold Pending
  infer_instance

/-- Whatever the server needs the fd for and the fd is ready for is in `m`, or the fd is in
the ready list; and epoll looks for space while there is something to send. -/
structure Settled (l : EdgeLoop) (fd : Fd) (m : Mask) : Prop where
  read : ∀ sock, l.server.fdToSock.get fd = some sock → l.readable sock = true →
    fd ∈ l.ready ∨ m.readable = true
  write : ∀ sock, l.server.fdToSock.get fd = some sock → l.writable sock = true →
    l.server.sendBuf fd ≠ [] → fd ∈ l.ready ∨ m.writable = true
  interest : ∀ reg, l.server.epoll.get fd = some reg → l.server.sendBuf fd ≠ [] →
    reg.mask.writable = true

/-- The fd is open and registered with `EPOLLIN`, or neither. -/
def Entry (l : EdgeLoop) (fd : Fd) : Prop :=
  ((∃ reg, l.server.epoll.get fd = some reg ∧ reg.mask.readable = true) ∧
    (l.server.fdToSock.get fd).isSome = true) ∨
  l.server.epoll.get fd = none ∧ l.server.fdToSock.get fd = none

/-- What holds at a call site for the fd whose handler runs. -/
def Holds (l : EdgeLoop) : CallSite → Prop
  | .poll | .accept | .done => True
  | .register fd =>
      (∃ c, l.server.fdToSock.get fd = some (.client c)) ∧ l.server.sendBuf fd = [] ∧
        l.server.epoll.get fd = none
  | .recv fd c event totalRead =>
      l.server.fdToSock.get fd = some (.client c) ∧ event.readable = true ∧
        (totalRead = 0 → l.Settled fd event)
  | .modifyInOut fd c _ => l.server.fdToSock.get fd = some (.client c)
  | .send fd c =>
      l.server.fdToSock.get fd = some (.client c) ∧ l.server.sendBuf fd ≠ [] ∧
        l.Settled fd { writable := true }
  | .modifyIn fd =>
      (∃ c, l.server.fdToSock.get fd = some (.client c)) ∧ l.server.sendBuf fd = []
  | .close fd => ∃ c, l.server.fdToSock.get fd = some (.client c)

/-- The event of the fd that waits in the batch, or none. -/
def Owes (l : EdgeLoop) (fd : Fd) (m : Mask) : Prop :=
  (fd, m) ∈ l.batch ∨ fd ∉ l.batch.map Prod.fst ∧ m = {}

/-- The invariant. -/
structure Consistent (l : EdgeLoop) : Prop where
  linked : l.server.Linked
  accepted : l.server.net.next ≤ l.connected
  entry : ∀ fd, l.site ≠ .register fd → l.Entry fd
  here : l.Holds l.site
  others : ∀ fd, fd ∉ l.busy → ∀ m, l.Owes fd m → l.Settled fd m

variable {l l' : EdgeLoop} {fd : Fd} {c : Conn} {event m : Mask}

/-- An entry that has not been touched. -/
theorem Entry.congr (h : l.Entry fd)
    (hsock : l'.server.fdToSock.get fd = l.server.fdToSock.get fd)
    (hepoll : l'.server.epoll.get fd = l.server.epoll.get fd) : l'.Entry fd := by
  rw [Entry, hsock, hepoll]
  exact h

/-- An open fd that `Entry` speaks of is registered. -/
theorem Entry.registered (h : l.Entry fd) {sock : Sock}
    (hsock : l.server.fdToSock.get fd = some sock) :
    ∃ reg, l.server.epoll.get fd = some reg ∧ reg.mask.readable = true := by
  rcases h with ⟨hreg, -⟩ | ⟨-, hnone⟩
  · exact hreg
  · rw [hnone] at hsock
    cases hsock

/-! ## Settled fds -/

/-- Only the bits of the mask that the server looks at matter. -/
theorem Settled.weaken (h : l.Settled fd m) {m' : Mask}
    (hread : m.readable = true → m'.readable = true)
    (hwrite : m.writable = true → m'.writable = true) : l.Settled fd m' :=
  ⟨fun sock hsock hready => (h.read sock hsock hready).imp_right hread,
    fun sock hsock hready hbuf => (h.write sock hsock hready hbuf).imp_right hwrite, h.interest⟩

/-- What is settled outright is settled but for any bits. -/
theorem Settled.any (h : l.Settled fd {}) (m : Mask) : l.Settled fd m :=
  h.weaken (fun hm => by cases hm) (fun hm => by cases hm)

/-- An fd that is neither open nor registered is settled. -/
theorem settled_of_closed (hsock : l.server.fdToSock.get fd = none)
    (hreg : l.server.epoll.get fd = none) : l.Settled fd {} := by
  refine ⟨fun sock hs => ?_, fun sock hs => ?_, fun reg hr => ?_⟩
  · rw [hsock] at hs
    cases hs
  · rw [hsock] at hs
    cases hs
  · rw [hreg] at hr
    cases hr

/-- Where the server goes on does not matter. -/
theorem Settled.move (h : l.Settled fd m) (batch : List (Fd × Mask)) (site : CallSite) :
    { l with batch := batch, site := site }.Settled fd m :=
  ⟨h.read, h.write, h.interest⟩

/-- An fd whose entries stay is settled as before if what it becomes ready for puts it into
the ready list. -/
theorem Settled.congr (h : l.Settled fd m)
    (hsock : l'.server.fdToSock.get fd = l.server.fdToSock.get fd)
    (hbuf : l'.server.sendBuf fd = l.server.sendBuf fd)
    (hepoll : l'.server.epoll.get fd = l.server.epoll.get fd)
    (hready : fd ∈ l.ready → fd ∈ l'.ready)
    (hread : ∀ sock, l.server.fdToSock.get fd = some sock → l'.readable sock = true →
      l.readable sock = true ∨ fd ∈ l'.ready)
    (hwrite : ∀ sock, l.server.fdToSock.get fd = some sock → l'.writable sock = true →
      l.server.sendBuf fd ≠ [] → l.writable sock = true ∨ fd ∈ l'.ready) :
    l'.Settled fd m := by
  refine ⟨fun sock hs hr => ?_, fun sock hs hw hne => ?_, fun reg hreg hne => ?_⟩
  · rw [hsock] at hs
    rcases hread sock hs hr with hold | hin
    · exact (h.read sock hs hold).imp_left hready
    · exact Or.inl hin
  · rw [hsock] at hs
    rw [hbuf] at hne
    rcases hwrite sock hs hw hne with hold | hin
    · exact (h.write sock hs hold hne).imp_left hready
    · exact Or.inl hin
  · rw [hepoll] at hreg
    rw [hbuf] at hne
    exact h.interest reg hreg hne

/-- What epoll reports of an open and registered fd. -/
theorem report_eq (hlinked : l.server.Linked) {sock : Sock}
    (hsock : l.server.fdToSock.get fd = some sock) {reg : Registration}
    (hreg : l.server.epoll.get fd = some reg) :
    (l.report fd).readable = (reg.mask.readable && l.readable sock) ∧
      (l.report fd).writable = (reg.mask.writable && l.writable sock) := by
  unfold report readiness
  rw [hreg, hlinked.sockAt_eq fd, hsock]
  exact ⟨rfl, rfl⟩

/-- After `register` or `modify` with the bits that the server needs, the fd is settled. -/
theorem settled_watch (hlinked : l.server.Linked) {reg : Registration}
    (hreg : l.server.epoll.get fd = some reg) (hin : reg.mask.readable = true)
    (hout : l.server.sendBuf fd ≠ [] → reg.mask.writable = true) :
    (l.watch fd).Settled fd {} := by
  have hmem : l.report fd ≠ {} → fd ∈ (l.watch fd).ready := by
    intro hne
    show fd ∈ if l.report fd = {} then l.ready else l.ready.insert fd
    rw [if_neg hne]
    exact List.mem_insert_self
  refine ⟨fun sock hsock hr => Or.inl (hmem fun hnone => ?_),
    fun sock hsock hw hne => Or.inl (hmem fun hnone => ?_), fun reg' hreg' hne => ?_⟩
  · have hrep := (report_eq hlinked hsock hreg).1
    rw [hnone, hin, show l.readable sock = true from hr] at hrep
    cases hrep
  · have hrep := (report_eq hlinked hsock hreg).2
    rw [hnone, hout hne, show l.writable sock = true from hw] at hrep
    cases hrep
  · cases hreg.symm.trans hreg'
    exact hout hne

/-- A registered fd is settled but for what epoll reports of it, wherever it is. -/
theorem settled_report (hlinked : l.server.Linked) (hentry : l.Entry fd)
    (h : l.Settled fd {}) (ready : List Fd) (batch : List (Fd × Mask)) :
    { l with ready := ready, batch := batch }.Settled fd (l.report fd) := by
  rcases hentry with ⟨⟨reg, hreg, hin⟩, -⟩ | ⟨-, hnone⟩
  · refine ⟨fun sock hsock hr => Or.inr ?_, fun sock hsock hw hne => Or.inr ?_, h.interest⟩
    · rw [(report_eq hlinked hsock hreg).1, hin]
      exact hr
    · rw [(report_eq hlinked hsock hreg).2, h.interest reg hreg hne]
      exact hw
  · have hno : ∀ sock, l.server.fdToSock.get fd ≠ some sock := by simp [hnone]
    exact ⟨fun sock hsock => absurd hsock (hno sock), fun sock hsock => absurd hsock (hno sock),
      h.interest⟩

/-! ## The clients -/

/-- A step of the kernel that leaves the server where it is and keeps fds settled. -/
theorem Consistent.congr (h : l.Consistent) (hlinked : l'.server.Linked)
    (haccepted : l'.server.net.next ≤ l'.connected)
    (hsite : l'.site = l.site) (hbatch : l'.batch = l.batch)
    (hserver : l'.server.net.serverFd = l.server.net.serverFd)
    (hsock : l'.server.fdToSock = l.server.fdToSock)
    (hbuf : l'.server.sendBufs = l.server.sendBufs) (hepoll : l'.server.epoll = l.server.epoll)
    (hsettled : ∀ fd m, l.Entry fd → l.Settled fd m → l'.Settled fd m) : l'.Consistent := by
  have hsendBuf : ∀ fd, l'.server.sendBuf fd = l.server.sendBuf fd := fun fd => by
    rw [sendBuf, sendBuf, hbuf]
  have hbusy : l'.busy = l.busy := by rw [busy, busy, hsite, hserver]
  have hnot : ∀ fd, fd ∉ l.busy → l.site ≠ .register fd := by
    intro fd hfd heq
    rw [busy, heq] at hfd
    exact hfd (List.mem_cons_of_mem _ List.mem_cons_self)
  refine ⟨hlinked, haccepted, fun fd hfd => ?_, ?_, fun fd hfd m howes => ?_⟩
  · rw [hsite] at hfd
    exact (h.entry fd hfd).congr (congrArg (·.get fd) hsock) (congrArg (·.get fd) hepoll)
  · have hhere := h.here
    have hentry := h.entry
    rw [hsite]
    generalize l.site = site at hhere hentry
    cases site with
    | poll | accept | done => trivial
    | register fd =>
        obtain ⟨hc, hempty, hnone⟩ := hhere
        rw [Holds, hsock, hsendBuf, hepoll]
        exact ⟨hc, hempty, hnone⟩
    | recv fd c event totalRead =>
        obtain ⟨hc, hevent, hset⟩ := hhere
        rw [Holds, hsock]
        exact ⟨hc, hevent, fun htotal => hsettled fd event (hentry fd (by simp)) (hset htotal)⟩
    | modifyInOut fd c event =>
        rw [Holds, hsock]
        exact hhere
    | send fd c =>
        obtain ⟨hc, hbuf', hset⟩ := hhere
        rw [Holds, hsock, hsendBuf]
        exact ⟨hc, hbuf', hsettled fd _ (hentry fd (by simp)) hset⟩
    | modifyIn fd =>
        rw [Holds, hsock, hsendBuf]
        exact hhere
    | close fd =>
        rw [Holds, hsock]
        exact hhere
  · rw [hbusy] at hfd
    rw [Owes, hbatch] at howes
    exact hsettled fd m (h.entry fd (hnot fd hfd)) (h.others fd hfd m howes)

/-- An fd that becomes ready goes into the ready list. -/
theorem mem_ready_wake {reg : Registration} (hreg : l.server.epoll.get fd = some reg)
    {bit : Mask → Bool} (hbit : bit reg.mask = true) : fd ∈ (l.wake fd bit).ready := by
  unfold wake
  dsimp only
  rw [hreg, Option.any_some, hbit, if_pos rfl]
  exact List.mem_insert_self

theorem mem_ready_of_mem_wake {fd' : Fd} (h : fd' ∈ l.ready) (fd : Fd) (bit : Mask → Bool) :
    fd' ∈ (l.wake fd bit).ready := by
  unfold wake
  dsimp only
  split_ifs
  · exact List.mem_insert_of_mem h
  · exact h

/-- A client's fd that becomes ready goes into the ready list. -/
theorem mem_ready_wakeClient (hlinked : l.server.Linked)
    (hc : l.server.fdToSock.get fd = some (.client c)) {reg : Registration}
    (hreg : l.server.epoll.get fd = some reg) {bit : Mask → Bool} (hbit : bit reg.mask = true) :
    fd ∈ (l.wakeClient c bit).ready := by
  obtain ⟨hopen, hfd⟩ := hlinked.open_of_sock fd c hc
  unfold wakeClient
  dsimp only
  rw [hopen, if_pos rfl, hfd]
  exact mem_ready_wake hreg hbit

theorem mem_ready_of_mem_wakeClient (h : fd ∈ l.ready) (c : Conn) (bit : Mask → Bool) :
    fd ∈ (l.wakeClient c bit).ready := by
  unfold wakeClient
  dsimp only
  split_ifs
  · exact mem_ready_of_mem_wake h _ _
  · exact h

/-- A client connects. -/
theorem Consistent.connect (h : l.Consistent) (capacity : ℕ) :
    (l.connect capacity).Consistent := by
  refine h.congr h.linked (Nat.le_succ_of_le h.accepted) rfl rfl rfl rfl rfl rfl
    fun fd m hentry hset => ?_
  -- the connection is not one of those that have been accepted
  have hother : ∀ d, l.server.fdToSock.get fd = some (.client d) →
      (l.connect capacity).buffers d = l.buffers d := by
    intro d hd
    have hlt := h.linked.lt_next (h.linked.open_of_sock fd d hd).1
    exact Function.update_of_ne (Nat.ne_of_lt (Nat.lt_of_lt_of_le hlt h.accepted)) ..
  refine hset.congr rfl rfl rfl (fun hin => mem_ready_of_mem_wake hin _ _)
    (fun sock hsock hr => ?_) (fun sock hsock hw _ => Or.inl ?_)
  · cases sock with
    | server =>
        obtain ⟨reg, hreg, hin⟩ := hentry.registered hsock
        obtain rfl := (h.linked.server_iff fd).mp hsock
        exact Or.inr (mem_ready_wake hreg hin)
    | client d =>
        rw [readable, hother d hsock] at hr
        exact Or.inl hr
  · cases sock with
    | server => exact hw
    | client d =>
        rw [writable, hother d hsock] at hw
        exact hw

/-- Nothing changes for the other connections and the listening socket. -/
structure OnlyClient (l l' : EdgeLoop) (c : Conn) : Prop where
  next : l'.server.net.next = l.server.net.next
  connected : l'.connected = l.connected
  stream : ∀ d, d ≠ c → l'.server.net.stream d = l.server.net.stream d
  buffers : ∀ d, d ≠ c → l'.buffers d = l.buffers d

/-- Only this client changes, so nothing else becomes readable. -/
theorem OnlyClient.readable_eq (h : OnlyClient l l' c) {sock : Sock} (hne : sock ≠ .client c) :
    l'.readable sock = l.readable sock := by
  cases sock with
  | server => rw [readable, readable, h.next, h.connected]
  | client d =>
      have hd : d ≠ c := fun heq => hne (congrArg Sock.client heq)
      rw [readable, readable, h.stream d hd, h.buffers d hd]

theorem OnlyClient.writable_eq (h : OnlyClient l l' c) {sock : Sock} (hne : sock ≠ .client c) :
    l'.writable sock = l.writable sock := by
  cases sock with
  | server => rfl
  | client d =>
      have hd : d ≠ c := fun heq => hne (congrArg Sock.client heq)
      rw [writable, writable, h.buffers d hd]

/-- New buffers are those of one client. -/
theorem onlyClient_setBuffers (l : EdgeLoop) (c : Conn) (b : Buffers) :
    OnlyClient l (l.setBuffers c b) c :=
  ⟨rfl, rfl, fun _ _ => rfl, fun _ hd => Function.update_of_ne hd ..⟩

/-- Settled fds stay settled if what changes for connection `c` puts its fd into the ready
list. -/
theorem Settled.onlyClient (h : l.Settled fd m) (honly : OnlyClient l l' c)
    (hsock : l'.server.fdToSock.get fd = l.server.fdToSock.get fd)
    (hbuf : l'.server.sendBuf fd = l.server.sendBuf fd)
    (hepoll : l'.server.epoll.get fd = l.server.epoll.get fd)
    (hready : fd ∈ l.ready → fd ∈ l'.ready)
    (hread : l.server.fdToSock.get fd = some (.client c) → l'.readable (.client c) = true →
      l.readable (.client c) = true ∨ fd ∈ l'.ready)
    (hwrite : l.server.fdToSock.get fd = some (.client c) → l'.writable (.client c) = true →
      l.server.sendBuf fd ≠ [] → l.writable (.client c) = true ∨ fd ∈ l'.ready) :
    l'.Settled fd m := by
  refine h.congr hsock hbuf hepoll hready (fun sock hs hr => ?_) (fun sock hs hw hne => ?_)
  · by_cases hc : sock = .client c
    · subst hc
      exact hread hs hr
    · exact Or.inl ((honly.readable_eq hc).symm.trans hr)
  · by_cases hc : sock = .client c
    · subst hc
      exact hwrite hs hw hne
    · exact Or.inl ((honly.writable_eq hc).symm.trans hw)

/-- A client sends. -/
theorem Consistent.clientSend (h : l.Consistent) (c : Conn) (data : Bytes) :
    (l.clientSend c data).Consistent := by
  have hlinked := h.linked.clientSend c data
  have honly : OnlyClient l (l.clientSend c data) c :=
    ⟨rfl, rfl, fun _ hd => Net.stream_setStream_of_ne _ _ hd, fun _ _ => rfl⟩
  let arrived : EdgeLoop :=
    { l with server := l.server.withClients (l.server.toClients.clientSend c data) }
  refine h.congr hlinked h.accepted rfl rfl rfl rfl rfl rfl fun fd m hentry hset => ?_
  refine hset.onlyClient honly rfl rfl rfl
    (fun hin => mem_ready_of_mem_wakeClient (l := arrived) hin _ _)
    (fun hc _ => Or.inr ?_) (fun _ hw _ => Or.inl hw)
  obtain ⟨reg, hreg, hin⟩ := hentry.registered hc
  exact mem_ready_wakeClient (l := arrived) hlinked hc hreg hin

/-- A client ends its stream, or breaks it off. -/
theorem Consistent.clientEnd (h : l.Consistent) (c : Conn) (how : Ending) :
    (l.clientEnd c how).Consistent := by
  let arrived := l.setBuffers c { l.buffers c with ending := some how }
  have honly : OnlyClient l arrived c := onlyClient_setBuffers l c _
  have hself : arrived.buffers c = { l.buffers c with ending := some how } :=
    Function.update_self ..
  refine h.congr h.linked h.accepted rfl rfl rfl rfl rfl rfl fun fd m hentry hset => ?_
  refine hset.onlyClient ⟨rfl, rfl, honly.stream, honly.buffers⟩ rfl rfl rfl
    (fun hin => mem_ready_of_mem_wakeClient (l := arrived) hin _ _)
    (fun hc _ => Or.inr ?_) (fun _ hw _ => Or.inl ?_)
  · obtain ⟨reg, hreg, hin⟩ := hentry.registered hc
    exact mem_ready_wakeClient (l := arrived) h.linked hc hreg hin
  · have hfull : arrived.writable (.client c) = true := hw
    rw [writable, hself] at hfull
    exact hfull

/-- A client reads. -/
theorem Consistent.clientRead (h : l.Consistent) (c : Conn) (n : ℕ) :
    (l.clientRead c n).Consistent := by
  let read := l.setBuffers c { l.buffers c with used := (l.buffers c).used - n }
  have honly : OnlyClient l read c := onlyClient_setBuffers l c _
  have hself : read.buffers c = { l.buffers c with used := (l.buffers c).used - n } :=
    Function.update_self ..
  have hready : (l.clientRead c n).ready =
      if (l.buffers c).full && !(read.buffers c).full then (read.wakeClient c Mask.writable).ready
      else l.ready := rfl
  refine h.congr h.linked h.accepted rfl rfl rfl rfl rfl rfl fun fd m hentry hset => ?_
  refine hset.onlyClient ⟨rfl, rfl, honly.stream, honly.buffers⟩ rfl rfl rfl (fun hin => ?_)
    (fun hc hr => Or.inl ?_) (fun hc hw hne => ?_)
  · rw [hready]
    split_ifs
    · exact mem_ready_of_mem_wakeClient (l := read) hin _ _
    · exact hin
  · have hreadable : read.readable (.client c) = true := hr
    rw [readable, hself] at hreadable
    exact hreadable
  · have hspace : (read.buffers c).full = false := by
      simpa [writable] using (show read.writable (.client c) = true from hw)
    by_cases hfull : (l.buffers c).full = true
    · -- the full send buffer gets space
      obtain ⟨reg, hreg, -⟩ := hentry.registered hc
      rw [hready, hfull, hspace]
      exact Or.inr (mem_ready_wakeClient (l := read) h.linked hc hreg
        (hset.interest reg hreg hne))
    · rw [writable]
      exact Or.inl (by simpa using hfull)

/-! ## `epoll.poll` and the batch -/

/-- `epoll.poll` reports fds, which go into the batch. -/
theorem Consistent.poll (h : l.Consistent) (hsite : l.site = .poll) (hbatch : l.batch = [])
    (fds : List Fd) : (l.pollCall fds).Consistent := by
  have hsettled : ∀ fd, l.Settled fd {} := by
    intro fd
    refine h.others fd ?_ {} (Or.inr ?_)
    · rw [busy, hsite]
      exact List.not_mem_nil
    · rw [hbatch]
      exact ⟨List.not_mem_nil, rfl⟩
  have hentry : ∀ fd, l.Entry fd := fun fd => h.entry fd (by simp [hsite])
  refine ⟨h.linked, h.accepted, fun fd _ => hentry fd, ?_, fun fd _ m howes => ?_⟩
  · rw [show (l.pollCall fds).site = .poll from hsite]
    trivial
  · have hmem : ∀ m, (fd, m) ∈ (l.pollCall fds).batch ↔ (fd ∈ fds ∧ l.report fd = m) ∧ m ≠ {} := by
      intro m
      simp only [pollCall, List.mem_filter, List.mem_map, Prod.mk.injEq, decide_eq_true_eq]
      constructor
      · rintro ⟨⟨fd', hfd', rfl, rfl⟩, hne⟩
        exact ⟨⟨hfd', rfl⟩, hne⟩
      · rintro ⟨⟨hfd, rfl⟩, hne⟩
        exact ⟨⟨fd, hfd, rfl, rfl⟩, hne⟩
    by_cases hfd : fd ∈ fds
    · -- an fd that is ready for nothing is not reported
      have hm : m = l.report fd := by
        rcases howes with hin | ⟨hnot, rfl⟩
        · exact ((hmem m).mp hin).1.2.symm
        · by_contra hne
          refine hnot (List.mem_map.mpr ⟨(fd, l.report fd), (hmem _).mpr ⟨⟨hfd, rfl⟩, ?_⟩, rfl⟩)
          exact fun heq => hne heq.symm
      rw [hm]
      exact settled_report h.linked (hentry fd) (hsettled fd) _ _
    · have hm : m = {} := by
        rcases howes with hin | ⟨-, rfl⟩
        · exact absurd ((hmem m).mp hin).1.1 hfd
        · rfl
      rw [hm]
      refine (hsettled fd).congr rfl rfl rfl (fun hin => ?_) (fun _ _ hr => Or.inl hr)
        (fun _ _ hw _ => Or.inl hw)
      exact List.mem_filter.mpr ⟨hin, by simpa using hfd⟩

/-- Where the server goes on does not matter. -/
theorem Holds.move {site : CallSite} (h : l.Holds site) (batch : List (Fd × Mask))
    (site' : CallSite) : { l with batch := batch, site := site' }.Holds site := by
  cases site with
  | recv fd c event totalRead => exact ⟨h.1, h.2.1, fun htotal => (h.2.2 htotal).move batch site'⟩
  | send fd c => exact ⟨h.1, h.2.1, h.2.2.move batch site'⟩
  | poll | accept | done | register | modifyInOut | modifyIn | close => exact h

/-- A handler that has the fd in hand goes on, or returns and leaves it settled. -/
def Exits (l : EdgeLoop) (fd : Fd) (site : CallSite) : Prop :=
  site.fds l.server.net.serverFd = [fd] ∨
    site.fds l.server.net.serverFd = [] ∧ l.Settled fd {}

/-- The loop takes the next event. -/
theorem Consistent.take (h : l.Consistent) (hsite : l.site = .poll) {rest : List (Fd × Mask)}
    (hbatch : l.batch = (fd, event) :: rest) {site : CallSite} (hholds : l.Holds site)
    (hexits : l.Exits fd site) : { l with batch := rest, site := site }.Consistent := by
  refine ⟨h.linked, h.accepted, fun fd' _ => h.entry fd' (by simp [hsite]), hholds.move _ _,
    fun fd' hbusy m howes => ?_⟩
  have hfree : fd' ∉ l.busy := by
    rw [busy, hsite]
    exact List.not_mem_nil
  by_cases hfd : fd' = fd
  · subst hfd
    rcases hexits with hsome | ⟨-, hset⟩
    · refine absurd ?_ hbusy
      rw [busy, show CallSite.fds _ _ = [fd'] from hsome]
      exact List.mem_singleton_self _
    · exact (hset.any m).move _ _
  · refine (h.others fd' hfree m ?_).move _ _
    rw [Owes, hbatch]
    rcases howes with hin | ⟨hnot, rfl⟩
    · exact Or.inl (List.mem_cons_of_mem _ hin)
    · refine Or.inr ⟨fun hin => ?_, rfl⟩
      rcases List.mem_cons.mp hin with heq | hin
      · exact hfd heq
      · exact hnot hin

end EdgeLoop

end Io

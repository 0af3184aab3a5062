/-
# `SelectEchoServer` (`python/io_multiplexing/select_server.py`)

The handlers, and the loop of `serve_forever` as a step function in which one step is
one pass: the call of `select.select` and the handlers of everything it reports.

Every handler relays (`relays_call`).  The descriptor sets are another matter:
`_handle_read` closes a client without handing `read_fds` on, so the closed fd stays in
it, and the next `select.select` raises (`not_descriptorsOk`).  They stay in step exactly
when the `accept` of the same pass hands every such fd number out again
(`run_descriptorsOk`).
-/
import Cocurrency.Io.Clients
import Mathlib.Data.Finset.Basic

namespace Io

open Clients

/-- The server: the shared tables, `read_fds` and `_recv_bufs`. -/
structure SelectEchoServer extends Clients where
  readFds : Finset Fd
  recvBufs : Dict Fd Bytes

namespace SelectEchoServer

/-- After `start()`, at the head of `serve_forever`. -/
def start (serverFd : Fd) : SelectEchoServer where
  toClients := .listen serverFd
  readFds := {serverFd}
  recvBufs := Dict.empty

/-! ## Handlers -/

/-- `_accept_client`. -/
def acceptClient (s : SelectEchoServer) :
    Except SockError (Fd × Bytes) → Ran SelectEchoServer
  | .error .blockingIOError => { state := s }
  | .error e => { state := s, raised := some e }
  | .ok (fd, data) =>
      { state :=
          { toClients := s.toClients.addClient fd data
            readFds := insert fd s.readFds
            recvBufs := s.recvBufs.set fd [] } }

/-- `_close_client`, with or without `read_fds` handed on by the caller. -/
def closeClient (s : SelectEchoServer) (fd : Fd) (withReadFds : Bool) : SelectEchoServer where
  toClients := s.toClients.close fd
  readFds := if withReadFds then s.readFds.erase fd else s.readFds
  recvBufs := s.recvBufs.pop fd

/-- `_handle_read`. -/
def handleRead (s : SelectEchoServer) (fd : Fd) (out : Except SockError ℕ) :
    Ran SelectEchoServer :=
  match s.fdToSock.get fd with
  | none => { state := s }
  | some .server => { state := s, raised := some .other }
  | some (.client c) =>
      match out with
      | .error e =>
          -- `_close_client(fd, fd_to_sock)`: `read_fds` is not handed on
          if e.endsRecv then { state := s.closeClient fd false }
          else { state := s, raised := some e }
      | .ok k =>
          if s.net.recvData c k = [] then { state := s.closeClient fd false }
          else
            { state :=
                { toClients := s.toClients.receive fd c k
                  readFds := s.readFds
                  recvBufs := s.recvBufs.set fd
                    ((s.recvBufs.get fd).getD [] ++ s.net.recvData c k) } }

/-- `_handle_write`.  The listening socket never has a send buffer. -/
def handleWrite (s : SelectEchoServer) (fd : Fd) (out : Except SockError ℕ) :
    Ran SelectEchoServer :=
  match s.fdToSock.get fd, s.sendBufs.get fd with
  | some (.client c), some (b :: rest) =>
      match out with
      | .error e =>
          if e.endsSend then { state := s.closeClient fd true }
          else { state := s, raised := some e }
      | .ok n =>
          if 0 < n then
            { state :=
                { toClients := s.toClients.flush fd c (b :: rest) n
                  readFds := s.readFds
                  recvBufs := s.recvBufs } }
          else { state := s }
  | _, _ => { state := s }

/-- `_cleanup`. -/
def cleanup (s : SelectEchoServer) : SelectEchoServer :=
  closeAll toClients (fun s fd => s.closeClient fd true) s

/-! ## Handler calls in any order -/

/-- A handler call with what the kernel answers, or what a client or the operator does. -/
inductive Call where
  | accept (out : Except SockError (Fd × Bytes))
  | read (fd : Fd) (out : Except SockError ℕ)
  | write (fd : Fd) (out : Except SockError ℕ)
  | clientSend (c : Conn) (data : Bytes)
  | stop

/-- The handler's run.  Only the fd of the listening socket is dispatched to
`_accept_client`, and `accept` hands out an fd number that is free. -/
def call (s : SelectEchoServer) : Call → Option (Ran SelectEchoServer)
  | .accept (.ok (fd, data)) =>
      if s.net.FdFree fd then some (s.acceptClient (.ok (fd, data))) else none
  | .accept (.error e) => some (s.acceptClient (.error e))
  | .read fd out => if fd = s.net.serverFd then none else some (s.handleRead fd out)
  | .write fd out => if fd = s.net.serverFd then none else some (s.handleWrite fd out)
  | .clientSend c data =>
      some { state := { s with toClients := s.toClients.clientSend c data } }
  | .stop => some { state := s.cleanup }

/-- A handler call; an exception that leaves the handler ends the loop in `_cleanup`. -/
def callStep (s : SelectEchoServer) (a : Call) : Option (Option SockError × SelectEchoServer) :=
  match s.call a with
  | none => none
  | some r => some (r.raised, if r.raised.isSome then r.state.cleanup else r.state)

section Relays

variable (s : SelectEchoServer)

/-- `_close_client` keeps the bytes of every client in order. -/
theorem relays_closeClient {fd : Fd} (hfd : fd ≠ s.net.serverFd) (withReadFds : Bool) :
    Relays s.toClients (s.closeClient fd withReadFds).toClients := Relays.close hfd

/-- `_accept_client`. -/
theorem relays_acceptClient (out : Except SockError (Fd × Bytes))
    (hfree : ∀ fd data, out = .ok (fd, data) → s.net.FdFree fd) :
    Relays s.toClients (s.acceptClient out).state.toClients := by
  match out with
  | .error e => cases e <;> exact .refl _
  | .ok (fd, data) => exact .addClient (hfree fd data rfl) data

/-- `_handle_read`, whatever the kernel answers. -/
theorem relays_handleRead {fd : Fd} (hfd : fd ≠ s.net.serverFd) (out : Except SockError ℕ) :
    Relays s.toClients (s.handleRead fd out).state.toClients := by
  rw [handleRead]
  split
  · exact .refl _
  · exact .refl _
  · next c hget =>
    cases out with
    | error e =>
        show Relays _ (if e.endsRecv then _ else _ : Ran SelectEchoServer).state.toClients
        split_ifs
        · exact s.relays_closeClient hfd false
        · exact .refl _
    | ok k =>
        show Relays _ (if s.net.recvData c k = [] then _ else _ :
          Ran SelectEchoServer).state.toClients
        split_ifs
        · exact s.relays_closeClient hfd false
        · exact .receive hget k

/-- `_handle_write`, whatever the kernel answers. -/
theorem relays_handleWrite {fd : Fd} (hfd : fd ≠ s.net.serverFd) (out : Except SockError ℕ) :
    Relays s.toClients (s.handleWrite fd out).state.toClients := by
  rw [handleWrite]
  split
  · next c b rest hget hbuf =>
    cases out with
    | error e =>
        show Relays _ (if e.endsSend then _ else _ : Ran SelectEchoServer).state.toClients
        split_ifs
        · exact s.relays_closeClient hfd true
        · exact .refl _
    | ok n =>
        show Relays _ (if 0 < n then _ else _ : Ran SelectEchoServer).state.toClients
        split_ifs
        · exact .flush hget hbuf n
        · exact .refl _
  · exact .refl _

/-- `_cleanup`. -/
theorem relays_cleanup : Relays s.toClients s.cleanup.toClients :=
  relays_closeAll (fun s _ hfd => s.relays_closeClient hfd true) s

variable {s}

/-- Every handler call relays. -/
theorem relays_call {a : Call} {r : Ran SelectEchoServer} (h : s.call a = some r) :
    Relays s.toClients r.state.toClients := by
  cases a with
  | accept out =>
      match out, h with
      | .error e, h =>
          cases h
          exact s.relays_acceptClient _ fun _ _ heq => by cases heq
      | .ok (fd, data), h =>
          rw [call] at h
          split_ifs at h with hfree
          cases h
          exact s.relays_acceptClient _ fun _ _ heq => by cases heq; exact hfree
  | read fd out =>
      rw [call] at h
      split_ifs at h with hfd
      cases h
      exact s.relays_handleRead hfd out
  | write fd out =>
      rw [call] at h
      split_ifs at h with hfd
      cases h
      exact s.relays_handleWrite hfd out
  | clientSend c data =>
      cases h
      exact .clientSend _ c data
  | stop =>
      cases h
      exact s.relays_cleanup

/-- The call for one fd. -/
theorem relays_callStep {a : Call} {e : Option SockError} {s' : SelectEchoServer}
    (h : s.callStep a = some (e, s')) : Relays s.toClients s'.toClients := by
  rw [callStep] at h
  split at h
  · cases h
  · next r hr =>
    cases h
    have hrun := relays_call hr
    split_ifs
    · exact hrun.trans (relays_cleanup _)
    · exact hrun

end Relays

/-! ## `serve_forever` -/

/-- `write_fds`: the fds with something in their send buffer. -/
def writeFds (s : SelectEchoServer) : List Fd :=
  (s.sendBufs.items.filter fun e => decide (e.2 ≠ [])).map Prod.fst

/-- `select.select` raises: one of its fds is closed. -/
def SelectRaises (s : SelectEchoServer) : Prop :=
  (∃ fd ∈ s.readFds, s.net.FdFree fd) ∨ ∃ fd ∈ s.writeFds, s.net.FdFree fd

instance (s : SelectEchoServer) : Decidable s.SelectRaises := by
  unfold SelectRaises
  infer_instance

/-- The fd in `rlist` that a call handles. -/
def Call.readFd (s : SelectEchoServer) : Call → Option Fd
  | .accept _ => some s.net.serverFd
  | .read fd _ => some fd
  | _ => none

/-- The fd in `wlist` that a call handles. -/
def Call.writeFd : Call → Option Fd
  | .write fd _ => some fd
  | _ => none

/-- What `select.select` may report: some of its fds, none twice. -/
def Reports (s : SelectEchoServer) (rlist wlist : List Call) : Prop :=
  ((∀ a ∈ rlist, ∃ fd ∈ s.readFds, a.readFd s = some fd) ∧ (rlist.map (Call.readFd s)).Nodup) ∧
    (∀ a ∈ wlist, ∃ fd ∈ s.writeFds, a.writeFd = some fd) ∧ (wlist.map Call.writeFd).Nodup

instance (s : SelectEchoServer) (rlist wlist : List Call) : Decidable (s.Reports rlist wlist) := by
  unfold Reports
  infer_instance

/-- One of the two `for` loops over ready fds. -/
def handleAll (s : SelectEchoServer) : List Call → Option (Ran SelectEchoServer)
  | [] => some { state := s }
  | a :: rest =>
      match s.call a with
      | none => none
      | some r => if r.raised.isSome then some r else handleAll r.state rest

/-- Both `for` loops. -/
def handleBoth (s : SelectEchoServer) (rlist wlist : List Call) :
    Option (Ran SelectEchoServer) :=
  match s.handleAll rlist with
  | none => none
  | some r => if r.raised.isSome then some r else r.state.handleAll wlist

/-- The server and whether its loop still runs. -/
structure Loop where
  server : SelectEchoServer
  running : Bool

/-- What can happen between and in the passes of the loop. -/
inductive Action where
  /-- `select.select`, and the handlers of what it reports with what the kernel answers -/
  | pass (rlist wlist : List Call)
  | clientSend (c : Conn) (data : Bytes)
  | stop

/-- What a step shows. -/
inductive Event where
  /-- `select.select` raised; the loop ended -/
  | selectError
  /-- an exception left a handler; the loop ended -/
  | handlerError (e : SockError)
  | passed
  | sent
  | stopped

/-- A step of the loop. -/
def step (l : Loop) : Action → Option (Event × Loop)
  | .clientSend c data =>
      some (.sent,
        { l with server := { l.server with toClients := l.server.toClients.clientSend c data } })
  | .stop => if l.running then some (.stopped, ⟨l.server.cleanup, false⟩) else none
  | .pass rlist wlist =>
      if l.running = false then none
      -- `except (OSError, ValueError) as e`: the loop breaks
      else if l.server.SelectRaises then some (.selectError, ⟨l.server.cleanup, false⟩)
      else if ¬ l.server.Reports rlist wlist then none
      else
        match l.server.handleBoth rlist wlist with
        | none => none
        | some ⟨s, some e⟩ => some (.handlerError e, ⟨s.cleanup, false⟩)
        | some ⟨s, none⟩ => some (.passed, ⟨s, true⟩)

/-- The calls for one of the lists. -/
theorem relays_handleAll {calls : List Call} {s : SelectEchoServer} {r : Ran SelectEchoServer}
    (h : s.handleAll calls = some r) : Relays s.toClients r.state.toClients := by
  induction calls generalizing s with
  | nil =>
      cases h
      exact .refl _
  | cons a rest ih =>
      rw [handleAll] at h
      split at h
      · cases h
      · next r₁ hcall =>
        split_ifs at h
        · cases h
          exact relays_call hcall
        · exact (relays_call hcall).trans (ih h)

/-- The calls for both lists. -/
theorem relays_handleBoth {s : SelectEchoServer} {rlist wlist : List Call}
    {r : Ran SelectEchoServer} (h : s.handleBoth rlist wlist = some r) :
    Relays s.toClients r.state.toClients := by
  rw [handleBoth] at h
  split at h
  · cases h
  · next r₁ hreads =>
    split_ifs at h
    · cases h
      exact relays_handleAll hreads
    · exact (relays_handleAll hreads).trans (relays_handleAll h)

/-- One turn of the loop. -/
theorem relays_step {l l' : Loop} {a : Action} {e : Event} (h : step l a = some (e, l')) :
    Relays l.server.toClients l'.server.toClients := by
  cases a with
  | clientSend c data =>
      cases h
      exact .clientSend _ c data
  | stop =>
      rw [step] at h
      split_ifs at h
      cases h
      exact l.server.relays_cleanup
  | pass rlist wlist =>
      rw [step] at h
      split_ifs at h
      · cases h
        exact l.server.relays_cleanup
      · split at h
        · cases h
        · next s e hboth =>
          cases h
          exact (relays_handleBoth hboth).trans s.relays_cleanup
        · next s hboth =>
          cases h
          exact relays_handleBoth hboth

/-! ## Descriptor sets in step -/

/-- Every fd that the next `select.select` gets is a key of `fd_to_sock` with an open
socket. -/
def DescriptorsOk (s : SelectEchoServer) : Prop :=
  ∀ fd, fd ∈ s.readFds ∨ fd ∈ s.writeFds →
    (s.fdToSock.get fd).isSome = true ∧ ¬ s.net.FdFree fd

/-- Every fd that a `_handle_read` of the loop closes is handed out again by the `accept`
later in the loop. -/
def Mends : SelectEchoServer → List Call → Prop
  | _, [] => True
  | s, a :: rest =>
      (∀ fd out, a = .read fd out → s.ReadEnds fd out →
        ∃ data, Call.accept (.ok (fd, data)) ∈ rest) ∧
      ∀ r, s.call a = some r → r.state.Mends rest

/-- The outcomes of accepts, client messages, disconnects, resets and partial writes. -/
def Call.Ordinary : Call → Prop
  | .accept (.error e) => e = .blockingIOError
  | .read _ (.error e) => e.endsRecv = true
  | .write _ (.error e) => e.endsSend = true
  | _ => True

/-- What an ordinary call does to `read_fds` and the keys of `fd_to_sock`. -/
inductive Descriptors (s s' : SelectEchoServer) : Call → Prop
  | accepted (fd : Fd) (data : Bytes) : s'.readFds = insert fd s.readFds →
      s'.fdToSock = s.fdToSock.set fd (.client s.net.next) →
      Descriptors s s' (.accept (.ok (fd, data)))
  | readEnded (fd : Fd) (out : Except SockError ℕ) : s.ReadEnds fd out →
      s'.readFds = s.readFds → s'.fdToSock = s.fdToSock.pop fd → Descriptors s s' (.read fd out)
  | writeEnded (fd : Fd) (out : Except SockError ℕ) : (s.fdToSock.get fd).isSome = true →
      s'.readFds = s.readFds.erase fd → s'.fdToSock = s.fdToSock.pop fd →
      Descriptors s s' (.write fd out)
  | kept (a : Call) : (∀ fd out, a = .read fd out → ¬ s.ReadEnds fd out) →
      (∀ fd data, a ≠ .accept (.ok (fd, data))) → s'.readFds = s.readFds →
      s'.fdToSock = s.fdToSock → Descriptors s s' a

section Descriptors

variable {s : SelectEchoServer}

/-- An fd that is not in the table. -/
theorem handleRead_of_none {fd : Fd} (hget : s.fdToSock.get fd = none)
    (out : Except SockError ℕ) : s.handleRead fd out = { state := s } := by
  rw [handleRead, hget]

/-- The client has ended its stream, or reading fails. -/
theorem handleRead_of_ends {fd : Fd} {out : Except SockError ℕ} (h : s.ReadEnds fd out) :
    s.handleRead fd out = { state := s.closeClient fd false } := by
  obtain ⟨c, hget, hend⟩ := h
  rw [handleRead, hget]
  cases out with
  | error e => exact if_pos hend
  | ok k => exact if_pos hend

/-- The client has sent something. -/
theorem handleRead_of_data {fd : Fd} {c : Conn} (hget : s.fdToSock.get fd = some (.client c))
    {k : ℕ} (hdata : s.net.recvData c k ≠ []) :
    s.handleRead fd (.ok k) =
      { state :=
          { toClients := s.toClients.receive fd c k
            readFds := s.readFds
            recvBufs := s.recvBufs.set fd
              ((s.recvBufs.get fd).getD [] ++ s.net.recvData c k) } } := by
  rw [handleRead, hget]
  exact if_neg hdata

/-- What `_handle_read` does to the sets of fds. -/
theorem descriptors_handleRead (h : s.Linked) {fd : Fd} (hfd : fd ≠ s.net.serverFd)
    {out : Except SockError ℕ} (hout : (Call.read fd out).Ordinary) :
    (s.handleRead fd out).raised = none ∧
      Descriptors s (s.handleRead fd out).state (.read fd out) := by
  by_cases hends : s.ReadEnds fd out
  · rw [handleRead_of_ends hends]
    exact ⟨rfl, .readEnded fd out hends rfl rfl⟩
  have hread : ∀ fd' out', Call.read fd out = .read fd' out' → ¬ s.ReadEnds fd' out' := by
    intro fd' out' heq
    cases heq
    exact hends
  have haccept : ∀ fd' data, Call.read fd out ≠ .accept (.ok (fd', data)) := by
    intro fd' data heq
    cases heq
  rcases h.sock_cases hfd with hget | ⟨c, hget⟩
  · rw [handleRead_of_none hget]
    exact ⟨rfl, .kept _ hread haccept rfl rfl⟩
  · cases out with
    | error e => exact absurd ⟨c, hget, hout⟩ hends
    | ok k =>
        rw [handleRead_of_data hget fun hdata => hends ⟨c, hget, hdata⟩]
        exact ⟨rfl, .kept _ hread haccept rfl rfl⟩

/-- What `_handle_write` does to the sets of fds. -/
theorem descriptors_handleWrite {fd : Fd} {out : Except SockError ℕ}
    (hout : (Call.write fd out).Ordinary) :
    (s.handleWrite fd out).raised = none ∧
      Descriptors s (s.handleWrite fd out).state (.write fd out) := by
  have hkept : ∀ s' : SelectEchoServer, s'.readFds = s.readFds → s'.fdToSock = s.fdToSock →
      Descriptors s s' (.write fd out) := by
    intro s' hreads hsock
    exact .kept _ (fun _ _ heq => by cases heq) (fun _ _ heq => by cases heq) hreads hsock
  rw [handleWrite]
  split
  · next c b rest hget hbuf =>
    cases out with
    | error e =>
        have hend : e.endsSend = true := hout
        dsimp only
        rw [if_pos hend]
        exact ⟨rfl, .writeEnded fd _ (by rw [hget]; rfl) rfl rfl⟩
    | ok n =>
        show (if 0 < n then _ else _ : Ran SelectEchoServer).raised = none ∧
          Descriptors s (if 0 < n then _ else _ : Ran SelectEchoServer).state _
        split_ifs
        · exact ⟨rfl, hkept _ rfl rfl⟩
        · exact ⟨rfl, hkept _ rfl rfl⟩
  · exact ⟨rfl, hkept s rfl rfl⟩

/-- An ordinary call raises nothing and touches the descriptors as `Descriptors` says. -/
theorem descriptors_call (h : s.Linked) {a : Call} {fd : Fd}
    (ha : a.readFd s = some fd ∨ a.writeFd = some fd) (hord : a.Ordinary)
    {r : Ran SelectEchoServer} (hcall : s.call a = some r) :
    r.raised = none ∧ Descriptors s r.state a := by
  cases a with
  | accept out =>
      match out, hord, hcall with
      | .error e, hord, hcall =>
          cases hord
          cases hcall
          exact ⟨rfl, .kept _ (fun _ _ heq => by cases heq) (fun _ _ heq => by cases heq) rfl rfl⟩
      | .ok (fd, data), _, hcall =>
          rw [call] at hcall
          split_ifs at hcall
          cases hcall
          exact ⟨rfl, .accepted fd data rfl rfl⟩
  | read fd out =>
      rw [call] at hcall
      split_ifs at hcall with hfd
      cases hcall
      exact descriptors_handleRead h hfd hord
  | write fd out =>
      rw [call] at hcall
      split_ifs at hcall
      cases hcall
      exact descriptors_handleWrite hord
  | clientSend c data => rcases ha with ha | ha <;> cases ha
  | stop => rcases ha with ha | ha <;> cases ha

/-- Every watched fd is a key of `fd_to_sock`, or is handed out by an `accept` among the
calls to come. -/
def Keyed (s : SelectEchoServer) (calls : List Call) : Prop :=
  ∀ fd ∈ s.readFds, (s.fdToSock.get fd).isSome = true ∨
    ∃ data, Call.accept (.ok (fd, data)) ∈ calls

/-- No call is left for this turn. -/
theorem keyed_nil : s.Keyed [] ↔ ∀ fd ∈ s.readFds, (s.fdToSock.get fd).isSome = true := by
  simp [Keyed]

/-- With an `accept` first, the fd it hands out needs no key. -/
theorem keyed_cons_accept {fd : Fd} {data : Bytes} {rest : List Call} :
    s.Keyed (.accept (.ok (fd, data)) :: rest) ↔
      ∀ fd' ∈ s.readFds, fd' = fd ∨ (s.fdToSock.get fd').isSome = true ∨
        ∃ data', Call.accept (.ok (fd', data')) ∈ rest := by
  refine forall₂_congr fun fd' _ => ?_
  constructor
  · rintro (hkey | ⟨data', hmem⟩)
    · exact Or.inr (Or.inl hkey)
    · rcases List.mem_cons.mp hmem with hhead | hmem
      · cases hhead
        exact Or.inl rfl
      · exact Or.inr (Or.inr ⟨data', hmem⟩)
  · rintro (rfl | hkey | ⟨data', hmem⟩)
    · exact Or.inr ⟨data, List.mem_cons_self⟩
    · exact Or.inl hkey
    · exact Or.inr ⟨data', List.mem_cons_of_mem _ hmem⟩

/-- Any other call makes no difference. -/
theorem keyed_cons_of_ne {a : Call} (ha : ∀ fd data, a ≠ .accept (.ok (fd, data)))
    {rest : List Call} : s.Keyed (a :: rest) ↔ s.Keyed rest := by
  refine forall₂_congr fun fd _ => or_congr_right (exists_congr fun data => ?_)
  rw [List.mem_cons]
  exact or_iff_right fun hhead => ha fd data hhead.symm

/-- One call of the loop over `rlist`: the watched fd that it closes has to be handed out
again. -/
theorem Descriptors.keyed_iff {s' : SelectEchoServer} {a : Call} (hdesc : Descriptors s s' a)
    {fd : Fd} (hfd : fd ∈ s.readFds) (hread : a.readFd s = some fd) (rest : List Call) :
    s'.Keyed rest ↔ s.Keyed (a :: rest) ∧ ∀ fd out, a = .read fd out → s.ReadEnds fd out →
      ∃ data, Call.accept (.ok (fd, data)) ∈ rest := by
  cases hdesc with
  | accepted fd₀ data hreads hsock =>
      rw [keyed_cons_accept, Keyed, hreads, hsock]
      constructor
      · intro hall
        refine ⟨fun fd' hfd' => ?_, fun _ _ heq => by cases heq⟩
        have hkey := hall fd' (Finset.mem_insert_of_mem hfd')
        rw [Dict.get_set] at hkey
        split_ifs at hkey with heq
        · exact Or.inl heq
        · exact Or.inr hkey
      · rintro ⟨hall, -⟩ fd' hfd'
        rw [Dict.get_set]
        split_ifs with heq
        · exact Or.inl rfl
        · exact (hall fd' (Finset.mem_of_mem_insert_of_ne hfd' heq)).resolve_left heq
  | readEnded fd₀ out hends hreads hsock =>
      cases hread
      rw [keyed_cons_of_ne (fun _ _ heq => by cases heq), Keyed, hreads, hsock]
      constructor
      · intro hall
        constructor
        · intro fd' hfd'
          have hkey := hall fd' hfd'
          rw [Dict.get_pop] at hkey
          split_ifs at hkey
          · exact Or.inr (hkey.resolve_left Bool.false_ne_true)
          · exact hkey
        · intro fd' out' heq _
          -- the fd itself is watched and no key any more
          cases heq
          have hkey := hall fd hfd
          rw [Dict.get_pop_self] at hkey
          exact hkey.resolve_left Bool.false_ne_true
      · rintro ⟨hall, hmend⟩ fd' hfd'
        rw [Dict.get_pop]
        split_ifs with heq
        · rw [heq]
          exact Or.inr (hmend fd out rfl hends)
        · exact hall fd' hfd'
  | writeEnded _ _ _ _ _ => cases hread
  | kept _ hgoes haccept hreads hsock =>
      rw [keyed_cons_of_ne haccept, Keyed, hreads, hsock]
      exact ⟨fun hall => ⟨hall, fun fd' out heq hends => absurd hends (hgoes fd' out heq)⟩,
        And.left⟩

/-- The loop over `rlist` discards no watched fd. -/
theorem Descriptors.readFds_subset {s' : SelectEchoServer} {a : Call}
    (hdesc : Descriptors s s' a) {fd : Fd} (hread : a.readFd s = some fd) :
    s.readFds ⊆ s'.readFds := by
  cases hdesc with
  | accepted _ _ hreads _ =>
      rw [hreads]
      exact Finset.subset_insert _ _
  | readEnded _ _ _ hreads _ | kept _ _ _ hreads _ => rw [hreads]
  | writeEnded _ _ _ _ _ => cases hread

/-- A call of the loop over `wlist` closes no fd without discarding it. -/
theorem Descriptors.keyed_nil_iff {s' : SelectEchoServer} {a : Call}
    (hdesc : Descriptors s s' a) {fd : Fd} (hwrite : a.writeFd = some fd) :
    s'.Keyed [] ↔ s.Keyed [] := by
  rw [keyed_nil, keyed_nil]
  cases hdesc with
  | accepted _ _ _ _ => cases hwrite
  | readEnded _ _ _ _ _ => cases hwrite
  | writeEnded fd₀ out hkey hreads hsock =>
      rw [hreads, hsock]
      constructor
      · intro hall fd' hfd'
        by_cases heq : fd' = fd₀
        · rw [heq]
          exact hkey
        · have hpop := hall fd' (Finset.mem_erase.mpr ⟨heq, hfd'⟩)
          rw [Dict.get_pop_of_ne _ heq] at hpop
          exact hpop
      · intro hall fd' hfd'
        obtain ⟨heq, hmem⟩ := Finset.mem_erase.mp hfd'
        rw [Dict.get_pop_of_ne _ heq]
        exact hall fd' hmem
  | kept _ _ _ hreads hsock => rw [hreads, hsock]

/-- **The loop over `rlist`.**  After it every watched fd is a key of `fd_to_sock` if and
only if the watched fds that are no key before it, and those the loop closes without
discarding them, are handed out by an `accept` of the loop. -/
theorem keyed_handleAll_reads {rlist : List Call} {s : SelectEchoServer} (h : s.Linked)
    (hfds : ∀ a ∈ rlist, ∃ fd ∈ s.readFds, a.readFd s = some fd)
    (hord : ∀ a ∈ rlist, a.Ordinary) {r : Ran SelectEchoServer}
    (hr : s.handleAll rlist = some r) :
    r.raised = none ∧ (r.state.Keyed [] ↔ s.Keyed rlist ∧ s.Mends rlist) := by
  induction rlist generalizing s with
  | nil =>
      cases hr
      simp [Mends]
  | cons a rest ih =>
      rw [handleAll] at hr
      split at hr
      · cases hr
      next r₁ hcall =>
      obtain ⟨fd, hfd, hread⟩ := hfds a List.mem_cons_self
      obtain ⟨hraised, hdesc⟩ := descriptors_call h (Or.inl hread)
        (hord a List.mem_cons_self) hcall
      rw [hraised, Option.isSome_none, if_neg Bool.false_ne_true] at hr
      obtain ⟨hlinked, hserver, -⟩ := relays_call hcall h
      have hsame : ∀ x : Call, x.readFd r₁.state = x.readFd s := by
        intro x
        cases x with
        | accept _ => exact congrArg some hserver
        | _ => rfl
      have hrest : ∀ x ∈ rest, ∃ fd ∈ r₁.state.readFds, x.readFd r₁.state = some fd := by
        intro x hx
        obtain ⟨fd', hfd', hread'⟩ := hfds x (List.mem_cons_of_mem _ hx)
        exact ⟨fd', hdesc.readFds_subset hread hfd', (hsame x).trans hread'⟩
      obtain ⟨hnone, hiff⟩ := ih hlinked hrest (fun x hx => hord x (List.mem_cons_of_mem _ hx)) hr
      refine ⟨hnone, hiff.trans ?_⟩
      rw [hdesc.keyed_iff hfd hread rest, and_assoc, Mends, hcall]
      simp

/-- The loop over `wlist` leaves no watched fd behind that is no key. -/
theorem keyed_handleAll_writes {wlist : List Call} {s : SelectEchoServer} (h : s.Linked)
    (hfds : ∀ a ∈ wlist, ∃ fd, a.writeFd = some fd) (hord : ∀ a ∈ wlist, a.Ordinary)
    {r : Ran SelectEchoServer} (hr : s.handleAll wlist = some r) :
    r.raised = none ∧ (r.state.Keyed [] ↔ s.Keyed []) := by
  induction wlist generalizing s with
  | nil =>
      cases hr
      exact ⟨rfl, Iff.rfl⟩
  | cons a rest ih =>
      rw [handleAll] at hr
      split at hr
      · cases hr
      next r₁ hcall =>
      obtain ⟨fd, hwrite⟩ := hfds a List.mem_cons_self
      obtain ⟨hraised, hdesc⟩ := descriptors_call h (Or.inr hwrite)
        (hord a List.mem_cons_self) hcall
      rw [hraised, Option.isSome_none, if_neg Bool.false_ne_true] at hr
      obtain ⟨hnone, hiff⟩ := ih (relays_call hcall h).1
        (fun x hx => hfds x (List.mem_cons_of_mem _ hx))
        (fun x hx => hord x (List.mem_cons_of_mem _ hx)) hr
      exact ⟨hnone, hiff.trans (hdesc.keyed_nil_iff hwrite)⟩

/-- With linked tables it is enough that the watched fds are keys: a key has an open
socket, and what has a send buffer is a key. -/
theorem descriptorsOk_iff (h : s.Linked) : s.DescriptorsOk ↔ s.Keyed [] := by
  rw [keyed_nil]
  refine ⟨fun hok fd hfd => (hok fd (Or.inl hfd)).1, fun hkeys fd hfd => ?_⟩
  have hkey : (s.fdToSock.get fd).isSome = true := by
    rcases hfd with hfd | hfd
    · exact hkeys fd hfd
    · obtain ⟨⟨fd', buf⟩, hmem, rfl⟩ := List.mem_map.mp hfd
      have hget := (Dict.get_eq_some_iff _ _ _).mpr (List.mem_filter.mp hmem).1
      obtain ⟨c, hc⟩ := (h.buf_iff fd').mp (by rw [hget]; rfl)
      rw [hc]
      rfl
  exact ⟨hkey, h.not_fdFree hkey⟩

/-- The sets are right, so `select` does not raise. -/
theorem not_selectRaises (h : s.DescriptorsOk) : ¬ s.SelectRaises := by
  rintro (⟨fd, hfd, hfree⟩ | ⟨fd, hfd, hfree⟩)
  · exact (h fd (Or.inl hfd)).2 hfree
  · exact (h fd (Or.inr hfd)).2 hfree

/-- The outcomes of an action are ordinary ones. -/
def Action.Ordinary : Action → Prop
  | .pass rlist wlist => (∀ a ∈ rlist, a.Ordinary) ∧ ∀ a ∈ wlist, a.Ordinary
  | _ => True

/-- A pass mends what its `_handle_read`s leave behind. -/
def Action.Mends (s : SelectEchoServer) : Action → Prop
  | .pass rlist _ => s.Mends rlist
  | _ => True

/-- One ordinary step: nothing ends the loop but `stop`, and the descriptor sets stay in
step if and only if the pass mends. -/
theorem descriptorsOk_step {l l' : Loop} (h : l.server.Linked) (hok : l.server.DescriptorsOk)
    {a : Action} {e : Event} (hord : a.Ordinary) (hs : step l a = some (e, l')) :
    (e ≠ .selectError ∧ ∀ x, e ≠ .handlerError x) ∧
      (l'.running = true → (l'.server.DescriptorsOk ↔ a.Mends l.server)) := by
  have hlinked' := (relays_step hs h).1
  cases a with
  | clientSend c data =>
      cases hs
      refine ⟨⟨by simp, by simp⟩, fun _ => ⟨fun _ => trivial, fun _ => ?_⟩⟩
      rw [descriptorsOk_iff hlinked']
      exact (descriptorsOk_iff h).mp hok
  | stop =>
      rw [step] at hs
      split_ifs at hs
      cases hs
      exact ⟨⟨by simp, by simp⟩, fun hrun => absurd hrun Bool.false_ne_true⟩
  | pass rlist wlist =>
      rw [step] at hs
      split_ifs at hs with _ hraises hreports
      · exact absurd hraises (not_selectRaises hok)
      obtain ⟨⟨hreads, -⟩, hwrites, -⟩ := hreports
      have hboth : ∀ r, l.server.handleBoth rlist wlist = some r → r.raised = none ∧
          (r.state.Keyed [] ↔ l.server.Mends rlist) := by
        intro r hr
        rw [handleBoth] at hr
        split at hr
        · cases hr
        next r₁ hr₁ =>
        obtain ⟨hnone₁, hiff₁⟩ := keyed_handleAll_reads h hreads hord.1 hr₁
        rw [hnone₁, Option.isSome_none, if_neg Bool.false_ne_true] at hr
        obtain ⟨hnone, hiff⟩ := keyed_handleAll_writes (relays_handleAll hr₁ h).1
          (fun a ha => (hwrites a ha).imp fun _ => And.right) hord.2 hr
        refine ⟨hnone, hiff.trans (hiff₁.trans (and_iff_right fun fd hfd => ?_))⟩
        exact Or.inl (hok fd (Or.inl hfd)).1
      split at hs
      · cases hs
      · next s e hrun => cases (hboth _ hrun).1
      · next s hrun =>
        cases hs
        refine ⟨⟨by simp, by simp⟩, fun _ => ?_⟩
        rw [descriptorsOk_iff hlinked']
        exact (hboth _ hrun).2

/-- Once the loop has ended, only clients act. -/
theorem stopped_step {l l' : Loop} {a : Action} {e : Event} (hrun : l.running = false)
    (hs : step l a = some (e, l')) :
    l'.running = false ∧ e ≠ .selectError ∧ ∀ x, e ≠ .handlerError x := by
  cases a with
  | clientSend c data =>
      cases hs
      exact ⟨hrun, by simp, by simp⟩
  | stop => simp [step, hrun] at hs
  | pass rlist wlist => simp [step, hrun] at hs

/-- **Descriptor sets.**  In a run of ordinary passes that mend, every fd that
`select.select` gets is a key of `fd_to_sock` with an open socket, so nothing but `stop`
ends the loop; and the next pass leaves it so if and only if it mends. -/
theorem run_descriptorsOk {serverFd : Fd} {h : List Event} {l : Loop}
    (hr : Run step (fun l a => a.Ordinary ∧ a.Mends l.server) ⟨start serverFd, true⟩ h l) :
    (l.running = true → l.server.DescriptorsOk) ∧
      (∀ x ∈ h, x ≠ .selectError ∧ ∀ e, x ≠ .handlerError e) ∧
      (l.running = true → ∀ a e l', a.Ordinary → step l a = some (e, l') →
        l'.running = true → (l'.server.DescriptorsOk ↔ a.Mends l.server)) := by
  have hlinked : ∀ {h : List Event} {l : Loop},
      Run step (fun l a => a.Ordinary ∧ a.Mends l.server) ⟨start serverFd, true⟩ h l →
        l.server.Linked := fun hr =>
    (run_echoes (fun l : Loop => l.server.toClients) serverFd rfl
      (fun _ _ _ _ => relays_step) hr).1
  have hinv : (l.running = true → l.server.DescriptorsOk) ∧
      ∀ x ∈ h, x ≠ .selectError ∧ ∀ e, x ≠ .handlerError e := by
    refine Run.invariant_running Loop.running (fun l => l.server.DescriptorsOk)
      (fun x => x ≠ .selectError ∧ ∀ e, x ≠ .handlerError e) ?_ ?_ ?_ hr
    · refine (descriptorsOk_iff (.listen serverFd)).mpr fun fd hfd => Or.inl ?_
      rw [Finset.mem_singleton.mp hfd]
      exact congrArg Option.isSome (Dict.get_set_self _ _ _)
    · exact fun l a e l' hrun hs => stopped_step hrun hs
    · intro h l a e l' hr _ hdesc hok hs
      obtain ⟨hevent, hiff⟩ := descriptorsOk_step (hlinked hr) hdesc hok.1 hs
      exact ⟨fun hrun' => (hiff hrun').mpr hok.2, hevent⟩
  exact ⟨hinv.1, hinv.2, fun hrun a e l' hord hs =>
    (descriptorsOk_step (hlinked hr) (hinv.1 hrun) hord hs).2⟩

/-- In one pass a client disconnects and the next one is given its fd number. -/
theorem run_descriptorsOk_reused :
    ∃ (h : List Event) (l : Loop), h.length = 2 ∧ (l.server.net.stream 0).isOpen = false ∧
      l.server.DescriptorsOk ∧ ∀ x ∈ h, x ≠ .selectError ∧ ∀ e, x ≠ .handlerError e := by
  have haccept : ∀ (s : SelectEchoServer) (out : Except SockError (Fd × Bytes)),
      s.Mends [.accept out] :=
    fun _ _ => ⟨fun _ _ heq => (by cases heq), fun _ _ => trivial⟩
  have hfirst : Run step (fun l a => a.Ordinary ∧ a.Mends l.server) ⟨start 3, true⟩ _ _ :=
    Run.nil.snoc (a := Action.pass [.accept (.ok (7, []))] [])
      ⟨⟨by simp [Call.Ordinary], by simp⟩, haccept _ _⟩ rfl
  have hr := hfirst.snoc (a := Action.pass [.read 7 (.ok 0), .accept (.ok (7, []))] [])
    ⟨⟨by simp [Call.Ordinary], by simp⟩, fun _ _ heq _ => (by cases heq; simp),
      fun _ _ => haccept _ _⟩ rfl
  obtain ⟨hdesc, hevents, -⟩ := run_descriptorsOk hr
  exact ⟨_, _, rfl, rfl, hdesc rfl, hevents⟩

/-- **A disconnect ends the loop.**  Two clients connect, on fds 7 and 8, and the first one
disconnects: fd 7 stays in `read_fds`, and whatever would be reported, the next
`select.select` raises and the loop ends, with the second client still connected. -/
theorem not_descriptorsOk :
    ∃ (h : List Event) (l : Loop),
      Run step (fun _ a => a.Ordinary) ⟨start 3, true⟩ h l ∧ l.running = true ∧
      (l.server.net.stream 1).isOpen = true ∧ ¬ l.server.DescriptorsOk ∧
      ∀ rlist wlist, step l (.pass rlist wlist) =
        some (.selectError, ⟨l.server.cleanup, false⟩) := by
  have hr : Run step (fun _ a => a.Ordinary) ⟨start 3, true⟩ _ _ :=
    ((Run.nil.snoc (a := .pass [.accept (.ok (7, []))] [])
      (by simp [Action.Ordinary, Call.Ordinary]) rfl).snoc (a := .pass [.accept (.ok (8, []))] [])
      (by simp [Action.Ordinary, Call.Ordinary]) rfl).snoc (a := .pass [.read 7 (.ok 0)] [])
      (by simp [Action.Ordinary, Call.Ordinary]) rfl
  refine ⟨_, _, hr, rfl, rfl, fun hok => ?_, fun rlist wlist => rfl⟩
  have hopen := (hok 7 (Or.inl (by decide))).1
  cases hopen

end Descriptors

end SelectEchoServer

end Io

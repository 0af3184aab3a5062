/-
# Registrations of the epoll server

Without `EPOLLONESHOT` every open client is always armed.  With it, delivering an event
disables the fd, and a handler must arm it again; `_flush_send` and `_handle_io_et` have
exits that do not (`not_allArmed`).  The clients stay armed exactly when every handler call arms
again or closes (`run_armed`).
-/
import Cocurrency.Io.Armed

namespace Io

namespace EpollEchoServer

open Clients

variable {s s' : EpollEchoServer}

/-! ## Accepting -/

/-- The tables, the rest of the batch and the clients are in order. -/
structure InOrder (s : EpollEchoServer) (batch : List (Fd × Mask)) : Prop where
  tables : Tables s
  batchOk : BatchOk s batch
  armed : ArmedBut s batch

/-- A new registration for an fd outside the batch keeps everything in order. -/
theorem InOrder.register {batch : List (Fd × Mask)} (h : InOrder s batch) {fd : Fd}
    (hout : fd ∉ batch.map Prod.fst) (hlinked : s'.Linked)
    (honeshot : s'.useOneshot = s.useOneshot)
    (hframe : ∀ fd', fd' ≠ fd → s'.fdToSock.get fd' = s.fdToSock.get fd' ∧
      s'.sendBufs.get fd' = s.sendBufs.get fd' ∧ s'.epoll.get fd' = s.epoll.get fd')
    (hkey : (s'.fdToSock.get fd).isSome = true) {mask : Mask}
    (hreg : s'.epoll.get fd = some (registration s.mode s.useOneshot mask))
    (hcovered : ∀ c, s'.fdToSock.get fd = some (.client c) → s'.Covered fd) :
    InOrder s' batch := by
  have htables : Tables s' := by
    refine h.tables.of_frame hlinked honeshot hframe ?_ hcovered fun reg hget => Or.inr ⟨mask, ?_⟩
    · rw [hreg, hkey]
      rfl
    · rw [hreg] at hget
      exact (Option.some.inj hget).symm
  refine ⟨htables, h.batchOk.of_frame honeshot hout hframe, fun fd' c hget hbatch => ?_⟩
  by_cases hfd : fd' = fd
  · rw [hfd] at hget ⊢
    refine (hcovered c hget).armed fun reg hget' => ?_
    rw [hreg] at hget'
    rw [← Option.some.inj hget']
    rfl
  · obtain ⟨hsock, hbuf, hepoll⟩ := hframe fd' hfd
    rw [hsock] at hget
    rw [honeshot] at hbatch
    exact (h.armed fd' c hget hbatch).congr hbuf hepoll

/-- A new client is registered. -/
theorem InOrder.admitClient {batch : List (Fd × Mask)} (h : InOrder s batch) {fd : Fd}
    (hfree : s.net.FdFree fd) (data : Bytes) :
    (s.admitClient fd data).raised = none ∧ InOrder (s.admitClient fd data).state batch := by
  have hnokey : (s.fdToSock.get fd).isSome = false := by
    cases hkey : (s.fdToSock.get fd).isSome with
    | false => rfl
    | true => exact absurd hfree (h.tables.linked.not_fdFree hkey)
  have hrun : s.admitClient fd data =
      { state := { s.withClients (s.toClients.addClient fd data) with
          epoll := s.epoll.set fd (registration s.mode s.useOneshot .pollIn) } } := by
    unfold EpollEchoServer.admitClient
    dsimp only
    rw [h.tables.keys fd, hnokey]
    rfl
  rw [hrun]
  have hsock : (s.toClients.addClient fd data).fdToSock.get fd = some (.client s.net.next) :=
    Dict.get_set_self _ _ _
  have hreg : (s.epoll.set fd (registration s.mode s.useOneshot .pollIn)).get fd =
      some (registration s.mode s.useOneshot .pollIn) := Dict.get_set_self _ _ _
  refine ⟨rfl, h.register ?_ (h.tables.linked.addClient hfree data) rfl (fun fd' hfd' =>
    ⟨Dict.get_set_of_ne _ _ hfd', Dict.get_set_of_ne _ _ hfd', Dict.get_set_of_ne _ _ hfd'⟩)
    ?_ hreg fun c _ => ⟨_, hreg, rfl, fun hne => absurd ?_ hne⟩⟩
  · intro hmem
    rw [h.batchOk.key fd hmem] at hnokey
    cases hnokey
  · exact congrArg Option.isSome hsock
  · exact congrArg (fun buf => Option.getD buf []) (Dict.get_set_self s.sendBufs fd [])

/-- All new clients are registered. -/
theorem InOrder.acceptLoop {batch : List (Fd × Mask)} (last : SockError)
    (conns : List (Fd × Bytes)) :
    ∀ {s : EpollEchoServer}, InOrder s batch → s.net.serverFd ∉ batch.map Prod.fst →
      FreshFds s.net conns → (acceptLoop last s conns).raised = none →
        InOrder (acceptLoop last s conns).state batch := by
  induction conns with
  | nil =>
      intro s h hserver _ hret
      rw [EpollEchoServer.acceptLoop] at hret ⊢
      split_ifs at hret ⊢
      · -- with `EPOLLONESHOT` the listening socket is armed again
        have hget := (h.tables.linked.server_iff s.net.serverFd).mpr rfl
        have hkey : (s.fdToSock.get s.net.serverFd).isSome = true := by
          rw [hget]
          rfl
        rw [rearm_of_registered ((h.tables.keys _).trans hkey)]
        exact h.register hserver h.tables.linked rfl (fun fd' hfd' =>
          ⟨rfl, rfl, Dict.get_set_of_ne _ _ hfd'⟩) hkey (Dict.get_set_self _ _ _)
          fun c hc => by
            rw [hget] at hc
            cases hc
      · exact h
  | cons x rest ih =>
      intro s h hserver hfresh hret
      rw [EpollEchoServer.acceptLoop] at hret ⊢
      obtain ⟨hraised, h'⟩ := h.admitClient (hfresh.2 x List.mem_cons_self) x.2
      rw [Ran.andThen_of_none hraised] at hret ⊢
      have hclients := toClients_admitClient s x.1 x.2
      refine ih h' ?_ ?_ hret
      · rw [hclients]
        exact hserver
      · rw [hclients]
        exact hfresh.tail

/-- `_accept_client`, in either mode. -/
theorem InOrder.acceptClient {batch : List (Fd × Mask)} (h : InOrder s batch)
    (hserver : s.net.serverFd ∉ batch.map Prod.fst) {conns : List (Fd × Bytes)}
    (hfresh : FreshFds s.net conns) (event : Mask) (last : SockError)
    (hret : (s.acceptClient event conns last).raised = none) :
    InOrder (s.acceptClient event conns last).state batch := by
  unfold EpollEchoServer.acceptClient at hret ⊢
  split_ifs at hret ⊢
  · exact h
  · exact h.acceptLoop last conns hserver hfresh hret

/-! ## Delivering -/

/-- What delivering does to a registration. -/
def delivered (reg : Registration) : Registration :=
  if reg.oneshot then { reg with enabled := false } else reg

/-- Delivering one event. -/
theorem get_deliver (epoll : Dict Fd Registration) (x : Fd × Mask) (fd : Fd) :
    (deliver epoll x).get fd =
      if fd = x.1 then (epoll.get fd).map delivered else epoll.get fd := by
  unfold deliver
  split
  · next reg hreg =>
    by_cases hfd : fd = x.1
    · rw [if_pos hfd, hfd, hreg]
      split_ifs with honeshot
      · rw [Dict.get_set_self, Option.map_some, delivered, if_pos honeshot]
      · rw [hreg, Option.map_some, delivered, if_neg honeshot]
    · rw [if_neg hfd]
      split_ifs
      · exact Dict.get_set_of_ne _ _ hfd
      · rfl
  · next hnone =>
    split_ifs with hfd
    · rw [hfd, hnone]
      rfl
    · rfl

/-- The fds without an event. -/
theorem get_deliver_of_notMem (events : List (Fd × Mask)) {fd : Fd}
    (h : fd ∉ events.map Prod.fst) :
    ∀ epoll : Dict Fd Registration, (events.foldl deliver epoll).get fd = epoll.get fd := by
  induction events with
  | nil => exact fun _ => rfl
  | cons x rest ih =>
      intro epoll
      rw [List.map_cons, List.mem_cons, not_or] at h
      rw [List.foldl_cons, ih h.2, get_deliver, if_neg h.1]

/-- The fds with an event. -/
theorem get_deliver_of_mem (events : List (Fd × Mask)) {fd : Fd}
    (hnodup : (events.map Prod.fst).Nodup) (h : fd ∈ events.map Prod.fst) :
    ∀ epoll : Dict Fd Registration,
      (events.foldl deliver epoll).get fd = (epoll.get fd).map delivered := by
  induction events with
  | nil => cases h
  | cons x rest ih =>
      intro epoll
      rw [List.map_cons, List.nodup_cons] at hnodup
      rw [List.foldl_cons]
      rcases List.mem_cons.mp h with heq | hmem
      · rw [get_deliver_of_notMem rest (by rw [heq]; exact hnodup.1), get_deliver, if_pos heq]
      · have hne : fd ≠ x.1 := by
          rintro rfl
          exact hnodup.1 hmem
        rw [ih hnodup.2 hmem, get_deliver, if_neg hne]

/-- The registrations after the delivery of `events`. -/
theorem get_delivered {events : List (Fd × Mask)} (hnodup : (events.map Prod.fst).Nodup)
    (epoll : Dict Fd Registration) (fd : Fd) :
    (events.foldl deliver epoll).get fd =
      if fd ∈ events.map Prod.fst then (epoll.get fd).map delivered else epoll.get fd := by
  split_ifs with hmem
  · exact get_deliver_of_mem events hnodup hmem epoll
  · exact get_deliver_of_notMem events hmem epoll

/-- Delivering changes at most whether a registration is enabled. -/
theorem delivered_cases {events : List (Fd × Mask)} (hnodup : (events.map Prod.fst).Nodup)
    {epoll : Dict Fd Registration} {fd : Fd} {reg : Registration}
    (hreg : epoll.get fd = some reg) :
    ∃ reg', (events.foldl deliver epoll).get fd = some reg' ∧ reg'.mask = reg.mask ∧
      reg'.oneshot = reg.oneshot ∧ (reg.oneshot = false → reg' = reg) := by
  rw [get_delivered hnodup, hreg]
  split_ifs
  · refine ⟨delivered reg, rfl, ?_⟩
    unfold delivered
    split_ifs with honeshot <;> simp [honeshot]
  · exact ⟨reg, rfl, rfl, rfl, fun _ => rfl⟩

/-- A registration after the delivery comes from one before it. -/
theorem get_of_delivered {events : List (Fd × Mask)} (hnodup : (events.map Prod.fst).Nodup)
    {epoll : Dict Fd Registration} {fd : Fd} {reg' : Registration}
    (hreg' : (events.foldl deliver epoll).get fd = some reg') :
    ∃ reg, epoll.get fd = some reg ∧ reg'.oneshot = reg.oneshot ∧
      (reg.oneshot = false → reg' = reg) := by
  cases hreg : epoll.get fd with
  | none =>
      rw [get_delivered hnodup, hreg, Option.map_none, ite_self] at hreg'
      cases hreg'
  | some reg =>
      obtain ⟨reg'', hreg'', -, honeshot, hsame⟩ := delivered_cases hnodup hreg
      rw [hreg'] at hreg''
      cases hreg''
      exact ⟨reg, rfl, honeshot, hsame⟩

/-- `epoll.poll` is nothing to the tables. -/
theorem Tables.poll (ht : Tables s) {events : List (Fd × Mask)}
    (hnodup : (events.map Prod.fst).Nodup) :
    Tables { s with epoll := events.foldl deliver s.epoll } := by
  refine ⟨ht.linked, fun fd => ?_, fun fd c hc => ?_, fun fd reg' hreg' => ?_,
    fun hoff fd reg' hreg' => ?_⟩
  · show ((events.foldl deliver s.epoll).get fd).isSome = (s.fdToSock.get fd).isSome
    rw [← ht.keys fd, get_delivered hnodup]
    split_ifs
    · exact Option.isSome_map
    · rfl
  · obtain ⟨reg, hreg, hread, hwrite⟩ := ht.covered fd c hc
    obtain ⟨reg', hreg', hmask, -, -⟩ := delivered_cases hnodup hreg
    rw [← hmask] at hread hwrite
    exact ⟨reg', hreg', hread, hwrite⟩
  · obtain ⟨reg, hreg, honeshot, -⟩ := get_of_delivered hnodup hreg'
    exact honeshot.trans (ht.oneshot_eq fd reg hreg)
  · obtain ⟨reg, hreg, -, hsame⟩ := get_of_delivered hnodup hreg'
    rw [hsame ((ht.oneshot_eq fd reg hreg).trans hoff)]
    exact ht.enabled hoff fd reg hreg

/-- Polling keeps everything in order: what is disabled is in the new batch. -/
theorem InOrder.poll (h : InOrder s []) {events : List (Fd × Mask)} (hreports : s.Reports events) :
    InOrder { s with epoll := events.foldl deliver s.epoll } events := by
  obtain ⟨hnodup, hreport⟩ := hreports
  refine ⟨h.tables.poll hnodup, ⟨hnodup, fun fd hmem => ?_, fun hon fd hmem reg' hreg' => ?_⟩,
    fun fd c hc hbatch => ?_⟩
  · obtain ⟨x, hx, rfl⟩ := List.mem_map.mp hmem
    obtain ⟨reg, hreg, -⟩ := hreport x hx
    rw [← h.tables.keys x.1, Option.mem_def.mp hreg]
    rfl
  · have hget := get_delivered hnodup s.epoll fd
    rw [if_pos hmem, show (events.foldl deliver s.epoll).get fd = some reg' from hreg'] at hget
    obtain ⟨reg, hreg, rfl⟩ := Option.map_eq_some_iff.mp hget.symm
    have honeshot : reg.oneshot = true := (h.tables.oneshot_eq fd _ hreg).trans hon
    rw [delivered, if_pos honeshot]
  · obtain ⟨reg, hreg, henabled, hread, hwrite⟩ := h.armed fd c hc fun _ => List.not_mem_nil
    refine ⟨reg, ?_, henabled, hread, hwrite⟩
    show (events.foldl deliver s.epoll).get fd = some reg
    rw [get_delivered hnodup]
    split_ifs with hmem
    · -- its event is in the batch, so it is not one of `EPOLLONESHOT`
      have honeshot : ¬ reg.oneshot = true := by
        rw [h.tables.oneshot_eq fd _ hreg]
        exact fun hon => hbatch hon hmem
      rw [hreg, Option.map_some, delivered, if_neg honeshot]
    · exact hreg

/-! ## Runs -/

/-- At the start there is only the listening socket, with its registration. -/
theorem inOrder_start (mode : TriggerMode) (useOneshot : Bool) (serverFd : Fd) :
    InOrder (start mode useOneshot serverFd) [] := by
  have hclient : ∀ fd c,
      (start mode useOneshot serverFd).fdToSock.get fd ≠ some (.client c) := by
    intro fd c hget
    rw [show (start mode useOneshot serverFd).fdToSock.get fd = _ from Dict.get_set _ _ _ _] at hget
    split_ifs at hget
    · cases hget
    · cases hget
  have hreg : ∀ fd reg, (start mode useOneshot serverFd).epoll.get fd = some reg →
      reg = registration mode useOneshot .pollIn := by
    intro fd reg hget
    rw [show (start mode useOneshot serverFd).epoll.get fd = _ from Dict.get_set _ _ _ _] at hget
    split_ifs at hget
    · exact (Option.some.inj hget).symm
    · cases hget
  refine ⟨⟨.listen serverFd, fun fd => ?_, fun fd c hget => absurd hget (hclient fd c),
    fun fd reg hget => by rw [hreg fd reg hget]; rfl,
    fun _ fd reg hget => by rw [hreg fd reg hget]; rfl⟩,
    ⟨List.nodup_nil, fun fd hmem => absurd hmem List.not_mem_nil,
      fun _ fd hmem => absurd hmem List.not_mem_nil⟩, fun fd c hget => absurd hget (hclient fd c)⟩
  show ((Dict.empty.set serverFd (registration mode useOneshot .pollIn)).get fd).isSome =
    ((Dict.empty.set serverFd Sock.server).get fd).isSome
  rw [Dict.get_set, Dict.get_set]
  split_ifs <;> rfl

/-- The handler of the next event of the batch. -/
theorem armed_dispatch {fd : Fd} {event : Mask} {rest : List (Fd × Mask)}
    (h : InOrder s ((fd, event) :: rest)) {answer : Answer} {r : Ran EpollEchoServer}
    (hr : s.dispatch fd event answer = some r) (hret : r.raised = none) :
    Tables r.state ∧ BatchOk r.state rest ∧
      (ArmedBut r.state rest ↔ (s.useOneshot = true → fd ≠ s.net.serverFd →
        (s.fdToSock.get fd).isSome = true → s.Rearms fd event answer)) := by
  have hkey := h.batchOk.key fd List.mem_cons_self
  obtain ⟨hout, hbatch⟩ := h.batchOk.tail
  -- a client's event
  have hclient : fd ≠ s.net.serverFd → (∀ c, s.fdToSock.get fd = some (.client c) →
      Touches s r.state fd (s.Rearms fd event answer)) →
      Tables r.state ∧ BatchOk r.state rest ∧
      (ArmedBut r.state rest ↔ (s.useOneshot = true → fd ≠ s.net.serverFd →
        (s.fdToSock.get fd).isSome = true → s.Rearms fd event answer)) := by
    intro hfd htouches
    rcases h.tables.linked.sock_cases hfd with hnone | ⟨c, hget⟩
    · rw [hnone] at hkey
      cases hkey
    · have ht := htouches c hget
      have htables := ht.tables hkey h.tables (relays_dispatch hr h.tables.linked).1
      refine ⟨htables, hbatch.of_frame ht.useOneshot_eq hout ht.frame,
        (ht.armedBut_iff hget htables h.batchOk h.armed).trans ?_⟩
      exact ⟨fun hre hon _ _ => hre hon, fun hre hon => hre hon hfd hkey⟩
  cases answer with
  | accept conns last =>
      rw [dispatch] at hr
      split_ifs at hr with hok
      cases hr
      obtain ⟨hfd, hfresh⟩ := hok
      have hrest : InOrder s rest := by
        refine ⟨h.tables, hbatch, fun fd' c hget hwait => h.armed fd' c hget fun hon hmem => ?_⟩
        rcases List.mem_cons.mp hmem with heq | hmem
        · -- the fd of the listening socket is no client's
          rw [heq, hfd, (h.tables.linked.server_iff _).mpr rfl] at hget
          cases hget
        · exact hwait hon hmem
      have hafter := hrest.acceptClient (by rw [← hfd]; exact hout) hfresh event last hret
      exact ⟨hafter.tables, hafter.batchOk, fun _ _ hne => absurd hfd hne, fun _ => hafter.armed⟩
  | lt recvOut sendOut =>
      have hrun := hr
      rw [dispatch] at hrun
      split_ifs at hrun with hok
      cases hrun
      exact hclient hok.1 fun c hget =>
        touches_handleIoLt hget (h.tables.covered fd c hget) event recvOut sendOut hret
  | et recvs last sendOut =>
      have hrun := hr
      rw [dispatch] at hrun
      split_ifs at hrun with hok
      cases hrun
      exact hclient hok.1 fun c hget =>
        touches_handleIoEt hget (h.tables.covered fd c hget) event recvs last sendOut hret

/-- One step from a state in order. -/
theorem armed_step {l l' : Loop} (h : InOrder l.server l.batch) {a : Action} {e : Event}
    (hs : step l a = some (e, l')) (hrun : l'.running = true) :
    Tables l'.server ∧ BatchOk l'.server l'.batch ∧
      (ArmedBut l'.server l'.batch ↔ a.Rearms l) := by
  cases a with
  | clientSend c data =>
      cases hs
      exact ⟨⟨h.tables.linked.clientSend c data, h.tables.keys, h.tables.covered,
        h.tables.oneshot_eq, h.tables.enabled⟩, ⟨h.batchOk.nodup, h.batchOk.key,
        h.batchOk.disabled⟩, fun _ => trivial, fun _ => h.armed⟩
  | stop =>
      rw [step] at hs
      split_ifs at hs
      cases hs
      cases hrun
  | poll events =>
      rw [step] at hs
      split_ifs at hs with hok
      cases hs
      rw [hok.2.1] at h
      have hafter := h.poll hok.2.2
      exact ⟨hafter.tables, hafter.batchOk, fun _ => trivial, fun _ => hafter.armed⟩
  | handle answer =>
      unfold step at hs
      dsimp only at hs
      split at hs
      · next fd event rest hrunning hbatch =>
        split at hs
        · next r hr =>
          have hafter := Option.some.inj hs
          unfold afterCall at hafter
          split at hafter
          · cases hafter
            cases hrun
          · next hret =>
            cases hafter
            rw [hbatch] at h
            obtain ⟨htables, hbatchOk, hiff⟩ := armed_dispatch h hr hret
            refine ⟨htables, hbatchOk, hiff.trans ⟨fun hre x rest' heq => ?_, fun hre => ?_⟩⟩
            · rw [hbatch] at heq
              cases heq
              exact hre
            · exact hre (fd, event) rest hbatch
        · cases hs
      · cases hs

/-- Once the loop has ended, only clients act. -/
theorem stopped_step {l l' : Loop} {a : Action} {e : Event} (hrun : l.running = false)
    (hs : step l a = some (e, l')) : l'.running = false := by
  cases a with
  | clientSend c data =>
      cases hs
      exact hrun
  | stop => simp [step, hrun] at hs
  | poll events => simp [step, hrun] at hs
  | handle answer => simp [step, hrun] at hs

/-- **Every live client stays armed.**  In a run in which, with `EPOLLONESHOT`, every
handler of a client's event closes the client or arms it again, every open client has an
enabled registration for `EPOLLIN`, and for `EPOLLOUT` while there is something to send;
and the next step leaves it so if and only if it is of that kind.  Without `EPOLLONESHOT`
every run is. -/
theorem run_armed {mode : TriggerMode} {useOneshot : Bool} {serverFd : Fd} {h : List Event}
    {l : Loop} (hr : Run step (fun l a => a.Rearms l)
      ⟨start mode useOneshot serverFd, [], true⟩ h l) (hrunning : l.running = true) :
    AllArmed l ∧ ∀ a e l', step l a = some (e, l') → l'.running = true →
      (AllArmed l' ↔ a.Rearms l) := by
  have hinv : (l.running = true → InOrder l.server l.batch) ∧ ∀ x ∈ h, True := by
    refine Run.invariant_running Loop.running (fun l => InOrder l.server l.batch)
      (fun _ => True) (inOrder_start mode useOneshot serverFd) ?_ ?_ hr
    · exact fun l a e l' hrun hs => ⟨stopped_step hrun hs, trivial⟩
    · intro h l a e l' _ _ horder hre hs
      refine ⟨fun hrun => ?_, trivial⟩
      obtain ⟨htables, hbatchOk, hiff⟩ := armed_step horder hs hrun
      exact ⟨htables, hbatchOk, hiff.mpr hre⟩
  have horder := hinv.1 hrunning
  refine ⟨(allArmed_iff horder.tables.linked).mpr horder.armed, fun a e l' hs hrun => ?_⟩
  obtain ⟨htables, -, hiff⟩ := armed_step horder hs hrun
  exact (allArmed_iff htables.linked).trans hiff

/-- With `EPOLLONESHOT`, a client sends two bytes and gets both back in one `send`: its fd is
armed again. -/
theorem run_armed_echo :
    ∃ l : Loop, (l.server.net.stream 0).sent = [65, 66] ∧
      (l.server.net.stream 0).isOpen = true ∧ AllArmed l := by
  have hr : Run step (fun l a => a.Rearms l) ⟨start .level true 3, [], true⟩ _ _ :=
    (((((Run.nil.snoc (a := Action.poll [(3, .pollIn)]) trivial rfl).snoc
      (a := Action.handle (.accept [(7, [97, 98])] .blockingIOError)) (by
        rintro x rest hbatch - hserver -
        cases hbatch
        exact absurd rfl hserver) rfl).snoc
      (a := Action.poll [(7, .pollIn)]) trivial rfl).snoc
      (a := Action.handle (.lt (.ok 2) (.ok 0))) (by
        rintro x rest hbatch - - -
        cases hbatch
        exact Or.inr (Or.inl ⟨rfl, trivial⟩)) rfl).snoc
      (a := Action.poll [(7, { writable := true })]) trivial rfl).snoc
      (a := Action.handle (.lt (.ok 0) (.ok 2))) (by
        rintro x rest hbatch - - -
        cases hbatch
        exact Or.inr (Or.inr ⟨rfl, Or.inr ⟨by decide, rfl⟩⟩)) rfl
  exact ⟨_, rfl, rfl, (run_armed hr rfl).1⟩

/-- **A partial send disarms the client.**  With `EPOLLONESHOT`, the kernel takes one of two
bytes of the reply; `_flush_send` returns, and the fd stays disabled with a byte in its
send buffer. -/
theorem not_allArmed :
    ∃ (h : List Event) (l : Loop), Run step anyStep ⟨start .level true 3, [], true⟩ h l ∧
      l.running = true ∧ l.batch = [] ∧ (l.server.net.stream 0).isOpen = true ∧
      l.server.sendBuf (l.server.net.stream 0).fd = [66] ∧ ¬ AllArmed l := by
  refine ⟨_, _, run_of_replay step [Action.poll [(3, .pollIn)],
    .handle (.accept [(7, [97, 98])] .blockingIOError), .poll [(7, .pollIn)],
    .handle (.lt (.ok 2) (.ok 0)), .poll [(7, { writable := true })],
    .handle (.lt (.ok 0) (.ok 1))] rfl, rfl, rfl, rfl, rfl, fun h => ?_⟩
  obtain ⟨reg, hget, henabled, -⟩ := h 0 rfl fun _ => List.not_mem_nil
  cases hget
  cases henabled

end EpollEchoServer

end Io

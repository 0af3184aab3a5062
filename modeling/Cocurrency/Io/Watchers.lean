/-
# The watchers of `NIOReactorServer`

The reactor keeps a cancel handle for each watcher, and the handle of an fd number outlives the
connection it was made for.  `Reactor.Coherent` says that a handle that is not cancelled is the
one in the table for its fd, and that the loop has a callback exactly where the tables have a
handle; what each method of the reactor does to one slot of the tables is `Reactor.Assigns`.

* `run_watched` : in every run, the loop's callbacks are those of the acceptor and of the open
  handlers, which watch for writability exactly while there is something to send;
* `run_lateCancel` : a handle made for a handler that has closed is never cancelled again.
-/
import Cocurrency.Io.Nio

namespace Io

/-! ## Slots of the reactor -/

namespace Reactor

variable {r r' : Reactor}

/-- The loop's own tables. -/
def installed (r : Reactor) : Remover → Dict Fd Callback
  | .reader => r.readers
  | .writer => r.writers

/-- `_read_watchers` and `_write_watchers`. -/
def watchers (r : Reactor) : Remover → Dict Fd ℕ
  | .reader => r.readWatchers
  | .writer => r.writeWatchers

/-- A handle that is not cancelled. -/
def Live (r : Reactor) (h : ℕ) : Prop := (r.handle h).cancelled = false

/-- The tables of the reactor, its handles and the tables of the loop agree. -/
structure Coherent (r : Reactor) : Prop where
  handle_of_watcher : ∀ w fd h, (r.watchers w).get fd = some h →
    h < r.nextHandle ∧ r.handle h = ⟨fd, w, false⟩
  watcher_of_live : ∀ h, r.Live h →
    (r.watchers (r.handle h).remover).get (r.handle h).fd = some h
  installed_iff : ∀ w fd, ((r.installed w).get fd).isSome = true ↔
    ((r.watchers w).get fd).isSome = true

/-- The slot of `fd` for `w` is assigned a callback, under a new handle, or cleared; the handle it
had is cancelled. -/
structure Assigns (r : Reactor) (w : Remover) (fd : Fd) (o : Option Callback) (r' : Reactor) :
    Prop where
  installed_eq : ∀ w' fd', (r'.installed w').get fd' =
    if w' = w ∧ fd' = fd then o else (r.installed w').get fd'
  watchers_eq : ∀ w' fd', (r'.watchers w').get fd' =
    if w' = w ∧ fd' = fd then o.map fun _ => r.nextHandle else (r.watchers w').get fd'
  nextHandle_eq : r'.nextHandle = if o.isSome then r.nextHandle + 1 else r.nextHandle
  handle_eq : ∀ h, r'.handle h =
    if o.isSome = true ∧ h = r.nextHandle then ⟨fd, w, false⟩
    else if (r.watchers w).get fd = some h then { r.handle h with cancelled := true }
    else r.handle h

/-- The slots of that kind after the assignment. -/
theorem Assigns.get_same {w : Remover} {fd : Fd} {o : Option Callback} (ha : Assigns r w fd o r')
    (fd' : Fd) :
    (r'.installed w).get fd' = if fd' = fd then o else (r.installed w).get fd' := by
  rw [ha.installed_eq]
  simp

/-- The slots of the other kind. -/
theorem Assigns.get_other {w : Remover} {fd : Fd} {o : Option Callback}
    (ha : Assigns r w fd o r') (w' : Remover) (hw : w' ≠ w) (fd' : Fd) :
    (r'.installed w').get fd' = (r.installed w').get fd' := by
  rw [ha.installed_eq]
  exact if_neg fun h => hw h.1

/-- An assignment keeps the handles coherent. -/
theorem Coherent.assigns (hr : Coherent r) {w : Remover} {fd : Fd} {o : Option Callback}
    (ha : Assigns r w fd o r') : Coherent r' := by
  constructor
  · intro w' fd' h hget
    rw [ha.watchers_eq] at hget
    split_ifs at hget with hslot
    · obtain ⟨cb, ho⟩ : ∃ cb, o = some cb := by
        cases o with
        | none => cases hget
        | some cb => exact ⟨cb, rfl⟩
      subst ho
      cases hget
      rw [ha.nextHandle_eq, ha.handle_eq, hslot.1, hslot.2]
      exact ⟨Nat.lt_succ_self _, if_pos ⟨rfl, rfl⟩⟩
    · obtain ⟨hlt, hhandle⟩ := hr.handle_of_watcher w' fd' h hget
      -- the handle is neither the new one nor the one that is cancelled
      have hold : ¬ (o.isSome = true ∧ h = r.nextHandle) := fun hnew =>
        absurd hnew.2 (by omega)
      have hother : ¬ (r.watchers w).get fd = some h := by
        intro hsame
        have heq := hhandle.symm.trans (hr.handle_of_watcher w fd h hsame).2
        exact hslot ⟨congrArg CancelHandle.remover heq, congrArg CancelHandle.fd heq⟩
      rw [ha.nextHandle_eq, ha.handle_eq, if_neg hold, if_neg hother]
      refine ⟨?_, hhandle⟩
      split_ifs
      · omega
      · exact hlt
  · intro h hlive
    rw [Live, ha.handle_eq] at hlive
    rw [ha.watchers_eq, ha.handle_eq]
    by_cases hnew : o.isSome = true ∧ h = r.nextHandle
    · obtain ⟨cb, rfl⟩ := Option.isSome_iff_exists.mp hnew.1
      rw [if_pos hnew, if_pos ⟨rfl, rfl⟩, hnew.2]
      rfl
    · rw [if_neg hnew] at hlive ⊢
      by_cases hsame : (r.watchers w).get fd = some h
      · rw [if_pos hsame] at hlive
        cases hlive
      · rw [if_neg hsame] at hlive ⊢
        have hget := hr.watcher_of_live h hlive
        -- a live handle of the slot would be the one that is cancelled
        rw [if_neg]
        · exact hget
        · rintro ⟨hw, hfd⟩
          rw [hw, hfd] at hget
          exact hsame hget
  · intro w' fd'
    rw [ha.installed_eq, ha.watchers_eq]
    split_ifs
    · cases o <;> simp
    · exact hr.installed_iff w' fd'

/-- The handle of a slot, if there is one, is cancelled, and the loop's callback removed. -/
structure Cancels (r : Reactor) (w : Remover) (fd : Fd) (r' : Reactor) : Prop where
  installed_eq : ∀ w' fd', (r'.installed w').get fd' =
    if w' = w ∧ fd' = fd then none else (r.installed w').get fd'
  watchers_eq : ∀ w', r'.watchers w' = r.watchers w'
  nextHandle_eq : r'.nextHandle = r.nextHandle
  handle_eq : ∀ h, r'.handle h =
    if (r.watchers w).get fd = some h then { r.handle h with cancelled := true } else r.handle h

/-- `_cancel_watcher`, for either kind. -/
theorem cancels_cancelWatcher (hr : Coherent r) (w : Remover) (fd : Fd) :
    Cancels r w fd (r.cancelWatcher (r.watchers w) fd) := by
  rw [cancelWatcher]
  cases hget : (r.watchers w).get fd with
  | none =>
      refine ⟨fun w' fd' => ?_, fun _ => rfl, rfl, fun h => ?_⟩
      · split_ifs with hslot
        · have hnone : ¬ ((r.installed w).get fd).isSome = true := by
            rw [hr.installed_iff, hget]
            exact Bool.false_ne_true
          rw [hslot.1, hslot.2]
          exact Option.not_isSome_iff_eq_none.mp hnone
        · rfl
      · rw [hget, if_neg (Option.some_ne_none h).symm]
  | some g =>
      have hg := (hr.handle_of_watcher w fd g hget).2
      have hhandle : ∀ h, (Function.update r.handle g { r.handle g with cancelled := true }) h =
          if (r.watchers w).get fd = some h then { r.handle h with cancelled := true }
          else r.handle h := by
        intro h
        rw [hget, Function.update_apply]
        by_cases hgh : h = g
        · rw [hgh, if_pos rfl, if_pos rfl]
        · rw [if_neg hgh, if_neg fun heq => hgh (Option.some.inj heq).symm]
      dsimp only
      rw [cancel, hg]
      rw [hg] at hhandle
      cases w with
      | reader =>
          refine ⟨fun w' fd' => ?_, fun w' => by cases w' <;> rfl, rfl, hhandle⟩
          cases w' with
          | reader => simpa [installed] using Dict.get_pop r.readers fd fd'
          | writer => rfl
      | writer =>
          refine ⟨fun w' fd' => ?_, fun w' => by cases w' <;> rfl, rfl, hhandle⟩
          cases w' with
          | reader => rfl
          | writer => simpa [installed] using Dict.get_pop r.writers fd fd'

/-- A callback and a new handle put into the slot that was cleared. -/
theorem Cancels.assigns_some {r₁ : Reactor} {w : Remover} {fd : Fd} (hc : Cancels r w fd r₁)
    {cb : Callback}
    (hinst : ∀ w', r'.installed w' =
      if w' = w then (r₁.installed w').set fd cb else r₁.installed w')
    (hwatch : ∀ w', r'.watchers w' =
      if w' = w then (r₁.watchers w').set fd r₁.nextHandle else r₁.watchers w')
    (hnext : r'.nextHandle = r₁.nextHandle + 1)
    (hhandle : r'.handle = Function.update r₁.handle r₁.nextHandle ⟨fd, w, false⟩) :
    Assigns r w fd (some cb) r' := by
  constructor
  · intro w' fd'
    rw [hinst]
    by_cases hw : w' = w
    · rw [if_pos hw, Dict.get_set, hc.installed_eq]
      split_ifs <;> simp_all
    · rw [if_neg hw, if_neg fun h => hw h.1, hc.installed_eq, if_neg fun h => hw h.1]
  · intro w' fd'
    rw [hwatch, hc.nextHandle_eq, ← hc.watchers_eq w']
    by_cases hw : w' = w
    · rw [if_pos hw, Dict.get_set]
      simp [hw]
    · rw [if_neg hw, if_neg fun h => hw h.1]
  · rw [hnext, hc.nextHandle_eq]
    rfl
  · intro h
    rw [hhandle, hc.nextHandle_eq, Function.update_apply]
    simp only [Option.isSome_some, true_and]
    split_ifs
    · rfl
    · exact (hc.handle_eq h).trans (if_pos ‹_›)
    · exact (hc.handle_eq h).trans (if_neg ‹_›)

/-- The slot that was cleared is dropped from the tables of the reactor too. -/
theorem Cancels.assigns_none {r₁ : Reactor} {w : Remover} {fd : Fd} (hc : Cancels r w fd r₁)
    (hinst : ∀ w', r'.installed w' = r₁.installed w')
    (hwatch : ∀ w', r'.watchers w' =
      if w' = w then (r.watchers w').pop fd else r₁.watchers w')
    (hnext : r'.nextHandle = r₁.nextHandle) (hhandle : r'.handle = r₁.handle) :
    Assigns r w fd none r' := by
  constructor
  · intro w' fd'
    rw [hinst, hc.installed_eq]
  · intro w' fd'
    rw [hwatch]
    by_cases hw : w' = w
    · rw [if_pos hw, Dict.get_pop]
      simp [hw]
    · rw [if_neg hw, if_neg fun h => hw h.1, hc.watchers_eq]
  · rw [hnext, hc.nextHandle_eq]
    rfl
  · intro h
    rw [hhandle, hc.handle_eq]
    simp

/-- `_add_read_watcher`, which cancels the old handle. -/
theorem assigns_addReadWatcher (hr : Coherent r) (fd : Fd) (cb : Callback) :
    Assigns r .reader fd (some cb) (r.addReadWatcher fd cb) :=
  (cancels_cancelWatcher hr .reader fd).assigns_some (fun w' => by cases w' <;> rfl)
    (fun w' => by cases w' <;> rfl) rfl rfl

/-- `_add_write_watcher`, which does the same. -/
theorem assigns_addWriteWatcher (hr : Coherent r) (fd : Fd) (cb : Callback) :
    Assigns r .writer fd (some cb) (r.addWriteWatcher fd cb) :=
  (cancels_cancelWatcher hr .writer fd).assigns_some (fun w' => by cases w' <;> rfl)
    (fun w' => by cases w' <;> rfl) rfl rfl

/-- The agreement is not about `_handlers`. -/
theorem Coherent.withHandlers (hr : Coherent r)
    (hs : Dict Fd (Option Callback × Option Callback)) : Coherent { r with handlers := hs } :=
  ⟨hr.handle_of_watcher, hr.watcher_of_live, hr.installed_iff⟩

/-- `register_read`. -/
theorem assigns_registerRead (hr : Coherent r) (fd : Fd) (cb : Callback) :
    Assigns r .reader fd (some cb) (r.registerRead fd cb) := by
  have ha := assigns_addReadWatcher
    (hr.withHandlers (r.handlers.set fd (some cb, ((r.handlers.get fd).getD (none, none)).2))) fd cb
  exact ⟨ha.installed_eq, ha.watchers_eq, ha.nextHandle_eq, ha.handle_eq⟩

/-- `register_write`. -/
theorem assigns_registerWrite (hr : Coherent r) (fd : Fd) (cb : Callback) :
    Assigns r .writer fd (some cb) (r.registerWrite fd cb) := by
  have ha := assigns_addWriteWatcher
    (hr.withHandlers (r.handlers.set fd (((r.handlers.get fd).getD (none, none)).1, some cb))) fd cb
  exact ⟨ha.installed_eq, ha.watchers_eq, ha.nextHandle_eq, ha.handle_eq⟩

/-- `unregister_write` cancels the watcher, if there is one. -/
theorem assigns_unregisterWrite (hr : Coherent r) (fd : Fd) :
    Assigns r .writer fd none (r.unregisterWrite fd) :=
  (cancels_cancelWatcher hr .writer fd).assigns_none (fun w' => by cases w' <;> rfl)
    (fun w' => by cases w' <;> rfl) rfl rfl

/-- `unregister_all` clears both slots of the fd, one after the other. -/
theorem assigns_unregisterAll (hr : Coherent r) (fd : Fd) :
    ∃ r₁, Assigns r .reader fd none r₁ ∧ Assigns r₁ .writer fd none (r.unregisterAll fd) := by
  have hc := cancels_cancelWatcher hr .reader fd
  have ha : Assigns r .reader fd none
      { r.cancelWatcher r.readWatchers fd with readWatchers := r.readWatchers.pop fd } :=
    hc.assigns_none (fun w' => by cases w' <;> rfl) (fun w' => by cases w' <;> rfl) rfl rfl
  have hb := assigns_unregisterWrite (hr.assigns ha) fd
  exact ⟨_, ha, hb.installed_eq, hb.watchers_eq, hb.nextHandle_eq, hb.handle_eq⟩

/-- `unregister_all` clears the slots of the fd, and no other. -/
theorem installed_unregisterAll (hr : Coherent r) (fd : Fd) (w : Remover) (fd' : Fd) :
    ((r.unregisterAll fd).installed w).get fd' =
      if fd' = fd then none else (r.installed w).get fd' := by
  obtain ⟨r₁, ha, hb⟩ := assigns_unregisterAll hr fd
  rw [hb.installed_eq, ha.installed_eq]
  cases w <;> simp

/-- With the acceptor's reader alone the tables agree. -/
theorem coherent_attached : Coherent attached := by
  refine ⟨fun w fd h hget => ?_, fun h hlive => ?_, fun w fd => ?_⟩
  · cases w <;> cases hget
  · cases hlive
  · cases w <;> exact Iff.rfl

/-- Handles keep their fd, and those that are cancelled stay so. -/
structure Ages (r r' : Reactor) : Prop where
  nextHandle_le : r.nextHandle ≤ r'.nextHandle
  fd_eq : ∀ h, h < r.nextHandle → (r'.handle h).fd = (r.handle h).fd
  cancelled : ∀ h, h < r.nextHandle → (r.handle h).cancelled = true →
    (r'.handle h).cancelled = true

/-- No handle has been used. -/
theorem Ages.refl (r : Reactor) : Ages r r := ⟨Nat.le_refl _, fun _ _ => rfl, fun _ _ h => h⟩

theorem Ages.trans {r'' : Reactor} (h₁ : Ages r r') (h₂ : Ages r' r'') : Ages r r'' := by
  have hle := h₁.nextHandle_le
  refine ⟨Nat.le_trans hle h₂.nextHandle_le, fun h hlt => ?_, fun h hlt hc => ?_⟩
  · rw [h₂.fd_eq h (by omega), h₁.fd_eq h hlt]
  · exact h₂.cancelled h (by omega) (h₁.cancelled h hlt hc)

/-- An assignment cancels at most, and makes a new handle. -/
theorem Assigns.ages {w : Remover} {fd : Fd} {o : Option Callback} (ha : Assigns r w fd o r') :
    Ages r r' := by
  have hhandle : ∀ h, h < r.nextHandle → r'.handle h =
      if (r.watchers w).get fd = some h then { r.handle h with cancelled := true }
      else r.handle h := by
    intro h hlt
    rw [ha.handle_eq, if_neg fun hnew => absurd hnew.2 (by omega)]
  refine ⟨?_, fun h hlt => ?_, fun h hlt hc => ?_⟩
  · rw [ha.nextHandle_eq]
    split_ifs
    · exact Nat.le_succ _
    · exact Nat.le_refl _
  · rw [hhandle h hlt]
    split_ifs <;> rfl
  · rw [hhandle h hlt]
    split_ifs
    · rfl
    · exact hc

/-- To cancel a handle that is cancelled does nothing. -/
theorem cancel_of_cancelled {h : ℕ} (hc : (r.handle h).cancelled = true) : r.cancel h = r := by
  rw [cancel, if_pos hc]

end Reactor

/-! ## The watchers of the handlers -/

namespace NioReactorServer

open Reactor

variable {s s' : NioReactorServer}

/-- Handler `c` has been created, and is not closed. -/
def IsOpen (s : NioReactorServer) (c : Conn) : Prop := (s.handler c).closed = false

/-- The callbacks in the loop are those of the acceptor and of the open handlers. -/
structure Watched (s : NioReactorServer) : Prop where
  linked : s.Linked
  coherent : s.reactor.Coherent
  fd_injective : ∀ c d, s.IsOpen c → s.IsOpen d → (s.net.stream c).fd = (s.net.stream d).fd → c = d
  fd_ne_server : ∀ c, s.IsOpen c → (s.net.stream c).fd ≠ s.net.serverFd
  reader_iff : ∀ fd cb, s.reactor.readers.get fd = some cb ↔
    (cb = .onAccept ∧ fd = s.net.serverFd) ∨
      ∃ c, cb = .onRead c ∧ s.IsOpen c ∧ (s.net.stream c).fd = fd
  writer_iff : ∀ fd cb, s.reactor.writers.get fd = some cb ↔
    ∃ c, cb = .onWrite c ∧ s.IsOpen c ∧ (s.net.stream c).fd = fd ∧ (s.handler c).sendBuf ≠ []

namespace Watched

/-- The writer of an open handler is installed while there is something to send. -/
theorem writer_eq (h : Watched s) {c : Conn} (hc : s.IsOpen c) :
    s.reactor.writers.get (s.net.stream c).fd =
      if (s.handler c).sendBuf = [] then none else some (.onWrite c) := by
  split_ifs with hbuf
  · rw [Option.eq_none_iff_forall_ne_some]
    intro cb hcb
    obtain ⟨d, -, hd, hfd, hne⟩ := (h.writer_iff _ cb).mp hcb
    rw [h.fd_injective d c hd hc hfd] at hne
    exact hne hbuf
  · exact (h.writer_iff _ _).mpr ⟨c, rfl, hc, rfl, hbuf⟩

/-- Changing the send buffer of an open handler, and with it its writer. -/
theorem setBuf (h : Watched s) {c : Conn} (hc : s.IsOpen c) {buf : Bytes} (hlinked : s'.Linked)
    (hcoherent : s'.reactor.Coherent) (hserver : s'.net.serverFd = s.net.serverFd)
    (hfd : ∀ d, (s'.net.stream d).fd = (s.net.stream d).fd)
    (hhandler : s'.handler = s.setHandler c { s.handler c with sendBuf := buf })
    (hreader : ∀ fd, s'.reactor.readers.get fd = s.reactor.readers.get fd)
    (hwriter : ∀ fd, s'.reactor.writers.get fd =
      if fd = (s.net.stream c).fd then if buf = [] then none else some (.onWrite c)
      else s.reactor.writers.get fd) : Watched s' := by
  have hself : s'.handler c = { s.handler c with sendBuf := buf } := by
    rw [hhandler]
    exact Function.update_self _ _ _
  have hother : ∀ d, d ≠ c → s'.handler d = s.handler d := by
    intro d hd
    rw [hhandler]
    exact Function.update_of_ne hd _ _
  have hopen : ∀ d, s'.IsOpen d ↔ s.IsOpen d := by
    intro d
    by_cases hd : d = c
    · rw [hd, IsOpen, hself]
      exact Iff.rfl
    · rw [IsOpen, hother d hd]
      exact Iff.rfl
  refine ⟨hlinked, hcoherent, fun d e hd he heq => ?_, fun d hd => ?_, fun fd cb => ?_,
    fun fd cb => ?_⟩
  · rw [hfd, hfd] at heq
    exact h.fd_injective d e ((hopen d).mp hd) ((hopen e).mp he) heq
  · rw [hfd, hserver]
    exact h.fd_ne_server d ((hopen d).mp hd)
  · rw [hreader, h.reader_iff, hserver]
    simp only [hopen, hfd]
  · rw [hwriter]
    simp only [hopen, hfd]
    by_cases heq : fd = (s.net.stream c).fd
    · rw [if_pos heq]
      constructor
      · intro hcb
        split_ifs at hcb with hbuf
        cases hcb
        refine ⟨c, rfl, hc, heq.symm, ?_⟩
        rw [hself]
        exact hbuf
      · rintro ⟨d, rfl, hd, hdfd, hne⟩
        obtain rfl : d = c := h.fd_injective d c hd hc (hdfd.trans heq)
        rw [hself] at hne
        rw [if_neg hne]
    · rw [if_neg heq, h.writer_iff]
      -- another fd, hence another handler
      have hne : ∀ d, (s.net.stream d).fd = fd → d ≠ c := by
        rintro d hd rfl
        exact heq hd.symm
      constructor
      · rintro ⟨d, hcb, hd, hdfd, hbuf⟩
        exact ⟨d, hcb, hd, hdfd, by rw [hother d (hne d hdfd)]; exact hbuf⟩
      · rintro ⟨d, hcb, hd, hdfd, hbuf⟩
        exact ⟨d, hcb, hd, hdfd, by rw [← hother d (hne d hdfd)]; exact hbuf⟩

/-- At the start only the acceptor is watched. -/
theorem start (serverFd : Fd) : Watched (start serverFd) := by
  have ha := assigns_registerRead coherent_attached serverFd .onAccept
  have hclosed : ∀ c, ¬ (NioReactorServer.start serverFd).IsOpen c := fun _ hc => by cases hc
  refine ⟨⟨fun _ => rfl, fun _ _ => rfl⟩, coherent_attached.assigns ha,
    fun c _ hc => absurd hc (hclosed c), fun c hc => absurd hc (hclosed c), fun fd cb => ?_,
    fun fd cb => ?_⟩
  · rw [show (NioReactorServer.start serverFd).reactor.readers.get fd =
      if fd = serverFd then some .onAccept else none from
        (ha.get_same fd).trans (by simp [installed, attached])]
    show _ ↔ (cb = .onAccept ∧ fd = serverFd) ∨ _
    split_ifs with hfd
    · simp [hfd, hclosed, eq_comm]
    · simp [hfd, hclosed]
  · rw [show (NioReactorServer.start serverFd).reactor.writers.get fd = none from
      (ha.get_other .writer (by decide) fd).trans (by simp [installed, attached])]
    simp [hclosed]

/-- Closing an open handler, and clearing both slots of its fd. -/
theorem drop (h : Watched s) {c : Conn} (hc : s.IsOpen c) (hlinked : s'.Linked)
    (hcoherent : s'.reactor.Coherent) (hserver : s'.net.serverFd = s.net.serverFd)
    (hfd : ∀ d, (s'.net.stream d).fd = (s.net.stream d).fd) (hself : (s'.handler c).closed = true)
    (hother : ∀ d, d ≠ c → s'.handler d = s.handler d)
    (hinst : ∀ w fd, (s'.reactor.installed w).get fd =
      if fd = (s.net.stream c).fd then none else (s.reactor.installed w).get fd) :
    Watched s' := by
  have hopen : ∀ d, s'.IsOpen d ↔ s.IsOpen d ∧ d ≠ c := by
    intro d
    by_cases hd : d = c
    · rw [hd, IsOpen, hself]
      exact iff_of_false Bool.noConfusion fun hne => hne.2 rfl
    · rw [IsOpen, hother d hd]
      exact ⟨fun ho => ⟨ho, hd⟩, And.left⟩
  -- the other open handlers have other fds
  have hne : ∀ d, s.IsOpen d → d ≠ c → (s.net.stream d).fd ≠ (s.net.stream c).fd :=
    fun d ho hd heq => hd (h.fd_injective d c ho hc heq)
  refine ⟨hlinked, hcoherent, fun d e hd he heq => ?_, fun d hd => ?_, fun fd cb => ?_,
    fun fd cb => ?_⟩
  · rw [hfd, hfd] at heq
    exact h.fd_injective d e ((hopen d).mp hd).1 ((hopen e).mp he).1 heq
  · rw [hfd, hserver]
    exact h.fd_ne_server d ((hopen d).mp hd).1
  · rw [show s'.reactor.readers.get fd = _ from hinst .reader fd, hserver]
    simp only [hfd]
    split_ifs with heq
    · refine iff_of_false (fun hnone => by cases hnone) ?_
      rintro (⟨-, hs⟩ | ⟨d, -, hd, hdfd⟩)
      · exact h.fd_ne_server c hc (heq.symm.trans hs)
      · obtain ⟨ho, hdc⟩ := (hopen d).mp hd
        exact hne d ho hdc (hdfd.trans heq)
    · rw [show (s.reactor.installed .reader).get fd = _ from rfl, installed, h.reader_iff]
      refine or_congr_right (exists_congr fun d => and_congr_right fun _ => ?_)
      refine ⟨fun hd => ⟨(hopen d).mpr ⟨hd.1, ?_⟩, hd.2⟩, fun hd => ⟨((hopen d).mp hd.1).1, hd.2⟩⟩
      rintro rfl
      exact heq hd.2.symm
  · rw [show s'.reactor.writers.get fd = _ from hinst .writer fd]
    simp only [hfd]
    split_ifs with heq
    · refine iff_of_false (fun hnone => by cases hnone) ?_
      rintro ⟨d, -, hd, hdfd, -⟩
      obtain ⟨ho, hdc⟩ := (hopen d).mp hd
      exact hne d ho hdc (hdfd.trans heq)
    · rw [show (s.reactor.installed .writer).get fd = _ from rfl, installed, h.writer_iff]
      refine exists_congr fun d => and_congr_right fun _ => ?_
      have hdc : (s.net.stream d).fd = fd → d ≠ c := by
        rintro hdfd rfl
        exact heq hdfd.symm
      constructor
      · rintro ⟨hd, hdfd, hbuf⟩
        rw [hother d (hdc hdfd)]
        exact ⟨(hopen d).mpr ⟨hd, hdc hdfd⟩, hdfd, hbuf⟩
      · rintro ⟨hd, hdfd, hbuf⟩
        rw [hother d (hdc hdfd)] at hbuf
        exact ⟨((hopen d).mp hd).1, hdfd, hbuf⟩

/-- A handler that is open is not the next one, and has no fd that is free. -/
theorem ne_of_free (h : Watched s) {fd : Fd} (hfree : s.net.FdFree fd) {c : Conn}
    (hc : s.IsOpen c) : c ≠ s.net.next ∧ (s.net.stream c).fd ≠ fd := by
  have hopen : (s.net.stream c).isOpen = true :=
    h.linked.isOpen (by rw [hc]; exact Bool.false_ne_true)
  have hlt : c < s.net.next := by
    by_contra hge
    rw [h.linked.not_yet c (Nat.le_of_not_lt hge)] at hopen
    cases hopen
  exact ⟨Nat.ne_of_lt hlt, hfree.2 c hlt hopen⟩

/-- A new handler, with its reader under an fd that was free. -/
theorem add (h : Watched s) {fd : Fd} (hfree : s.net.FdFree fd) (hlinked : s'.Linked)
    (hcoherent : s'.reactor.Coherent) (hserver : s'.net.serverFd = s.net.serverFd)
    (hnew : (s'.net.stream s.net.next).fd = fd ∧ s'.handler s.net.next = ⟨[], false⟩)
    (hfd : ∀ d, d ≠ s.net.next → (s'.net.stream d).fd = (s.net.stream d).fd)
    (hother : ∀ d, d ≠ s.net.next → s'.handler d = s.handler d)
    (hreader : ∀ fd', s'.reactor.readers.get fd' =
      if fd' = fd then some (.onRead s.net.next) else s.reactor.readers.get fd')
    (hwriter : ∀ fd', s'.reactor.writers.get fd' = s.reactor.writers.get fd') : Watched s' := by
  have hne : ∀ d, s.IsOpen d → d ≠ s.net.next ∧ (s.net.stream d).fd ≠ fd :=
    fun _ ho => h.ne_of_free hfree ho
  have hopen : ∀ d, s'.IsOpen d ↔ d = s.net.next ∨ s.IsOpen d := by
    intro d
    by_cases hd : d = s.net.next
    · rw [hd, IsOpen, hnew.2]
      exact iff_of_true rfl (Or.inl rfl)
    · rw [IsOpen, hother d hd]
      exact ⟨Or.inr, fun ho => ho.resolve_left hd⟩
  refine ⟨hlinked, hcoherent, fun d e hd he heq => ?_, fun d hd => ?_, fun fd' cb => ?_,
    fun fd' cb => ?_⟩
  · rcases (hopen d).mp hd with rfl | hd
    · rcases (hopen e).mp he with rfl | he
      · rfl
      · rw [hnew.1, hfd e (hne e he).1] at heq
        exact absurd heq.symm (hne e he).2
    · rcases (hopen e).mp he with rfl | he
      · rw [hnew.1, hfd d (hne d hd).1] at heq
        exact absurd heq (hne d hd).2
      · rw [hfd d (hne d hd).1, hfd e (hne e he).1] at heq
        exact h.fd_injective d e hd he heq
  · rw [hserver]
    rcases (hopen d).mp hd with rfl | hd
    · rw [hnew.1]
      exact hfree.1
    · rw [hfd d (hne d hd).1]
      exact h.fd_ne_server d hd
  · rw [hreader, hserver]
    by_cases heq : fd' = fd
    · rw [if_pos heq]
      constructor
      · intro hcb
        cases hcb
        exact Or.inr ⟨_, rfl, (hopen _).mpr (Or.inl rfl), hnew.1.trans heq.symm⟩
      · rintro (⟨-, hs⟩ | ⟨d, rfl, hd, hdfd⟩)
        · exact absurd (heq.symm.trans hs) hfree.1
        · rcases (hopen d).mp hd with rfl | hd
          · rfl
          · rw [hfd d (hne d hd).1] at hdfd
            exact absurd (hdfd.trans heq) (hne d hd).2
    · rw [if_neg heq, h.reader_iff]
      refine or_congr_right (exists_congr fun d => and_congr_right fun _ => ?_)
      constructor
      · rintro ⟨hd, hdfd⟩
        rw [hfd d (hne d hd).1]
        exact ⟨(hopen d).mpr (Or.inr hd), hdfd⟩
      · rintro ⟨hd, hdfd⟩
        rcases (hopen d).mp hd with rfl | hd
        · exact absurd (hdfd.symm.trans hnew.1) heq
        · rw [hfd d (hne d hd).1] at hdfd
          exact ⟨hd, hdfd⟩
  · rw [hwriter, h.writer_iff]
    refine exists_congr fun d => and_congr_right fun _ => ?_
    constructor
    · rintro ⟨hd, hdfd, hbuf⟩
      rw [hfd d (hne d hd).1, hother d (hne d hd).1]
      exact ⟨(hopen d).mpr (Or.inr hd), hdfd, hbuf⟩
    · rintro ⟨hd, hdfd, hbuf⟩
      rcases (hopen d).mp hd with rfl | hd
      · rw [hnew.2] at hbuf
        exact absurd rfl hbuf
      · rw [hfd d (hne d hd).1] at hdfd
        rw [hother d (hne d hd).1] at hbuf
        exact ⟨hd, hdfd, hbuf⟩

end Watched

/-- What every callback does: the watchers stay right, and the handles age. -/
def Keeps (s s' : NioReactorServer) : Prop :=
  s.Watched → s'.Watched ∧ s.reactor.Ages s'.reactor

theorem Keeps.refl (s : NioReactorServer) : Keeps s s := fun h => ⟨h, .refl _⟩

theorem Keeps.trans {s'' : NioReactorServer} (h₁ : Keeps s s') (h₂ : Keeps s' s'') :
    Keeps s s'' := by
  intro h
  obtain ⟨hwatched, hages⟩ := h₁ h
  obtain ⟨hwatched', hages'⟩ := h₂ hwatched
  exact ⟨hwatched', hages.trans hages'⟩

/-- What a client sends is nothing to the tables. -/
theorem keeps_clientSend (s : NioReactorServer) (c : Conn) (data : Bytes) :
    Keeps s { s with net := s.net.clientSend c data } := by
  intro h
  have hfd : ∀ d, ((s.net.clientSend c data).stream d).fd = (s.net.stream d).fd :=
    Net.field_setStream Stream.fd _ rfl
  refine ⟨⟨(relays_clientSend s c data h.linked).1, h.coherent, ?_, ?_, ?_, ?_⟩, .refl _⟩
  · simp only [hfd]
    exact h.fd_injective
  · simp only [hfd]
    exact h.fd_ne_server
  · simp only [hfd]
    exact h.reader_iff
  · simp only [hfd]
    exact h.writer_iff

/-- `_close`. -/
theorem keeps_close (s : NioReactorServer) (c : Conn) : Keeps s (s.close c) := by
  intro h
  have hlinked := (relays_close s c h.linked).1
  by_cases hclosed : (s.handler c).closed = true
  · rw [close, if_pos hclosed]
    exact Keeps.refl s h
  · rw [close, if_neg hclosed] at hlinked ⊢
    obtain ⟨r₁, ha, hb⟩ := assigns_unregisterAll h.coherent (s.net.stream c).fd
    refine ⟨?_, ha.ages.trans hb.ages⟩
    have hself : s.setHandler c { s.handler c with closed := true } c =
        { s.handler c with closed := true } := Function.update_self _ _ _
    exact h.drop (Bool.eq_false_iff.mpr hclosed) hlinked ((h.coherent.assigns ha).assigns hb) rfl
      (Net.field_setStream Stream.fd _ rfl) (congrArg EchoHandler.closed hself)
      (fun d hd => Function.update_of_ne hd _ _) (installed_unregisterAll h.coherent _)

/-- A new handler. -/
theorem keeps_addClient {fd : Fd} (hfree : s.net.FdFree fd) (data : Bytes) :
    Keeps s (s.addClient fd data) := by
  intro h
  have ha := assigns_registerRead h.coherent fd (.onRead s.net.next)
  refine ⟨?_, ha.ages⟩
  refine h.add hfree (relays_addClient s fd data h.linked).1 (h.coherent.assigns ha) rfl
    ⟨congrArg Stream.fd (Net.stream_setStream_self _ _ _), Function.update_self _ _ _⟩
    (fun d hd => congrArg Stream.fd (Net.stream_setStream_of_ne _ _ hd))
    (fun d hd => Function.update_of_ne hd _ _) (fun fd' => ?_) (fun fd' => ?_)
  · exact ha.get_same fd'
  · exact ha.get_other .writer (by decide) fd'

/-- `on_accept`, with all its new handlers. -/
theorem keeps_onAccept (last : SockError) (conns : List (Fd × Bytes)) :
    ∀ s : NioReactorServer, FreshFds s.net conns → Keeps s (onAccept last s conns).state := by
  induction conns with
  | nil => exact fun s _ => .refl s
  | cons x rest ih =>
      intro s hfresh
      exact (keeps_addClient (hfresh.2 x List.mem_cons_self) x.2).trans (ih _ hfresh.tail)

/-- `on_read`. -/
theorem keeps_onRead (s : NioReactorServer) (c : Conn) (out : Except SockError ℕ) :
    Keeps s (s.onRead c out).state := by
  intro h
  have hlinked := (relays_onRead s c out h.linked).1
  unfold onRead at hlinked ⊢
  split_ifs at hlinked ⊢ with hclosed
  · exact Keeps.refl s h
  · cases out with
    | error e =>
        dsimp only
        split_ifs
        · exact Keeps.refl s h
        · exact keeps_close s c h
        · exact Keeps.refl s h
    | ok k =>
        dsimp only at hlinked ⊢
        split_ifs at hlinked ⊢ with hdata
        · exact keeps_close s c h
        · have ha := assigns_registerWrite h.coherent (s.net.stream c).fd (.onWrite c)
          have hbuf : (s.handler c).sendBuf ++ upper (s.net.recvData c k) ≠ [] := by
            simp [upper, hdata]
          refine ⟨?_, ha.ages⟩
          refine h.setBuf (Bool.eq_false_iff.mpr hclosed) hlinked (h.coherent.assigns ha) rfl
            (Net.field_setStream Stream.fd _ rfl) rfl (fun fd => ?_) (fun fd => ?_)
          · exact ha.get_other .reader (by decide) fd
          · rw [if_neg hbuf]
            exact ha.get_same fd

/-- `on_write`. -/
theorem keeps_onWrite (s : NioReactorServer) (c : Conn) (out : Except SockError ℕ) :
    Keeps s (s.onWrite c out).state := by
  intro h
  have hlinked := (relays_onWrite s c out h.linked).1
  have ha := assigns_unregisterWrite h.coherent (s.net.stream c).fd
  unfold onWrite at hlinked ⊢
  split_ifs at hlinked ⊢ with hclosed hbuf
  · exact Keeps.refl s h
  · have hhandler : s.handler = s.setHandler c { s.handler c with sendBuf := [] } := by
      rw [← hbuf]
      exact (Function.update_eq_self c s.handler).symm
    refine ⟨?_, ha.ages⟩
    refine h.setBuf (Bool.eq_false_iff.mpr hclosed) hlinked (h.coherent.assigns ha) rfl
      (fun _ => rfl) hhandler (fun fd => ?_) (fun fd => ?_)
    · exact ha.get_other .reader (by decide) fd
    · exact ha.get_same fd
  · cases out with
    | error e =>
        dsimp only
        split_ifs
        · exact Keeps.refl s h
        · exact keeps_close s c h
        · exact Keeps.refl s h
    | ok n =>
        have hc : s.IsOpen c := Bool.eq_false_iff.mpr hclosed
        dsimp only at hlinked ⊢
        by_cases hrest : (s.handler c).sendBuf.drop n = []
        · rw [if_pos hrest] at hlinked ⊢
          refine ⟨?_, ha.ages⟩
          refine h.setBuf hc hlinked (h.coherent.assigns ha) rfl
            (Net.field_setStream Stream.fd _ rfl) rfl (fun fd => ?_) (fun fd => ?_)
          · exact ha.get_other .reader (by decide) fd
          · rw [if_pos hrest]
            exact ha.get_same fd
        · rw [if_neg hrest] at hlinked ⊢
          refine ⟨?_, .refl _⟩
          refine h.setBuf hc hlinked h.coherent rfl
            (Net.field_setStream Stream.fd _ rfl) rfl (fun _ => rfl) (fun fd => ?_)
          rw [if_neg hrest]
          split_ifs with hfd
          · rw [hfd]
            exact (h.writer_eq hc).trans (if_neg hbuf)
          · rfl

/-- Every callback keeps the watchers right. -/
theorem keeps_step {a : Action} {e : Option SockError} (h : step s a = some (e, s')) :
    Keeps s s' := by
  cases a with
  | onAccept conns last =>
      rw [step] at h
      split_ifs at h with hfresh
      cases h
      exact keeps_onAccept last conns s hfresh
  | onRead c out =>
      rw [step] at h
      split_ifs at h
      cases h
      exact keeps_onRead s c out
  | onWrite c out =>
      rw [step] at h
      split_ifs at h
      cases h
      exact keeps_onWrite s c out
  | close c =>
      rw [step] at h
      split_ifs at h
      cases h
      exact keeps_close s c
  | clientSend c data =>
      cases h
      exact keeps_clientSend s c data

/-! ## Late calls -/

/-- The handlers there are keep their fd, and stay open or closed. -/
structure Same (s s' : NioReactorServer) : Prop where
  next_le : s.net.next ≤ s'.net.next
  fd_eq : ∀ c, c < s.net.next → (s'.net.stream c).fd = (s.net.stream c).fd
  closed_eq : ∀ c, c < s.net.next → (s'.handler c).closed = (s.handler c).closed

theorem Same.refl (s : NioReactorServer) : Same s s :=
  ⟨Nat.le_refl _, fun _ _ => rfl, fun _ _ => rfl⟩

theorem Same.trans {s'' : NioReactorServer} (h₁ : Same s s') (h₂ : Same s' s'') : Same s s'' := by
  refine ⟨Nat.le_trans h₁.next_le h₂.next_le, fun c hc => ?_, fun c hc => ?_⟩
  · rw [h₂.fd_eq c (Nat.lt_of_lt_of_le hc h₁.next_le), h₁.fd_eq c hc]
  · rw [h₂.closed_eq c (Nat.lt_of_lt_of_le hc h₁.next_le), h₁.closed_eq c hc]

/-- `on_accept` leaves the handlers that are there. -/
theorem same_onAccept (last : SockError) (conns : List (Fd × Bytes)) :
    ∀ s : NioReactorServer, Same s (onAccept last s conns).state := by
  induction conns with
  | nil => exact fun s => .refl s
  | cons x rest ih =>
      intro s
      refine Same.trans ⟨Nat.le_succ _, fun c hc => ?_, fun c hc => ?_⟩ (ih (s.addClient x.1 x.2))
      · exact congrArg Stream.fd (Net.stream_setStream_of_ne _ _ (Nat.ne_of_lt hc))
      · exact congrArg EchoHandler.closed (Function.update_of_ne (Nat.ne_of_lt hc) _ _)

/-- A handler that keeps its `_closed`. -/
theorem same_setHandler {c : Conn} {hd : EchoHandler} (hnext : s'.net.next = s.net.next)
    (hfd : ∀ d, (s'.net.stream d).fd = (s.net.stream d).fd)
    (hhandler : s'.handler = s.setHandler c hd) (hclosed : hd.closed = (s.handler c).closed) :
    Same s s' := by
  refine ⟨Nat.le_of_eq hnext.symm, fun d _ => hfd d, fun d _ => ?_⟩
  rw [hhandler, setHandler]
  by_cases hdc : d = c
  · rw [hdc, Function.update_self, hclosed]
  · rw [Function.update_of_ne hdc]

/-- A callback closes one handler, or none. -/
theorem same_or_close {a : Action} {e : Option SockError} (h : step s a = some (e, s')) :
    Same s s' ∨ ∃ c, s' = s.close c := by
  cases a with
  | onAccept conns last =>
      rw [step] at h
      split_ifs at h
      cases h
      exact Or.inl (same_onAccept last conns s)
  | onRead c out =>
      rw [step] at h
      split_ifs at h
      cases h
      unfold onRead
      split_ifs
      · exact Or.inl (.refl s)
      · split
        · split_ifs
          · exact Or.inl (.refl s)
          · exact Or.inr ⟨c, rfl⟩
          · exact Or.inl (.refl s)
        · split_ifs
          · exact Or.inr ⟨c, rfl⟩
          · exact Or.inl (same_setHandler rfl (Net.field_setStream Stream.fd _ rfl) rfl rfl)
  | onWrite c out =>
      rw [step] at h
      split_ifs at h
      cases h
      unfold onWrite
      split_ifs
      · exact Or.inl (.refl s)
      · exact Or.inl ⟨Nat.le_refl _, fun _ _ => rfl, fun _ _ => rfl⟩
      · split
        · split_ifs
          · exact Or.inl (.refl s)
          · exact Or.inr ⟨c, rfl⟩
          · exact Or.inl (.refl s)
        · exact Or.inl (same_setHandler rfl (Net.field_setStream Stream.fd _ rfl) rfl rfl)
  | close c =>
      rw [step] at h
      split_ifs at h
      cases h
      exact Or.inr ⟨c, rfl⟩
  | clientSend c data =>
      cases h
      have hfd : ∀ d, ((s.net.clientSend c data).stream d).fd = (s.net.stream d).fd :=
        Net.field_setStream Stream.fd _ rfl
      exact Or.inl ⟨Nat.le_refl _, fun d _ => hfd d, fun _ _ => rfl⟩

/-- Handle `k` was made for handler `c`: the fds agree, and if `c` is closed the handle is
cancelled. -/
structure MadeFor (k : ℕ) (c : Conn) (fd : Fd) (s : NioReactorServer) : Prop where
  lt_nextHandle : k < s.reactor.nextHandle
  lt_next : c < s.net.next
  handle_fd : (s.reactor.handle k).fd = fd
  stream_fd : (s.net.stream c).fd = fd
  cancelled : ¬ s.IsOpen c → (s.reactor.handle k).cancelled = true

/-- A closed socket keeps its number on record. -/
theorem fd_netClose (net : Net) (d c : Conn) :
    ((net.close (.client d)).stream c).fd = (net.stream c).fd := by
  apply Net.field_setStream Stream.fd
  rfl

/-- Once the slots of its fd are cleared, a handle is cancelled. -/
theorem cancelled_of_cleared {r : Reactor} (hr : r.Coherent) {k : ℕ}
    (hclear : ∀ w, (r.installed w).get (r.handle k).fd = none) :
    (r.handle k).cancelled = true := by
  by_contra hlive
  have hget := hr.watcher_of_live k (Bool.eq_false_iff.mpr hlive)
  have hsome := (hr.installed_iff _ _).mpr (Option.isSome_of_eq_some hget)
  rw [hclear] at hsome
  cases hsome

/-- A handle remains the handle of its handler. -/
theorem MadeFor.step {k : ℕ} {c : Conn} {fd : Fd} (hm : MadeFor k c fd s) (hw : s.Watched)
    {a : Action} {e : Option SockError} (h : step s a = some (e, s')) : MadeFor k c fd s' := by
  obtain ⟨hw', hages⟩ := keeps_step h hw
  have hlt := Nat.lt_of_lt_of_le hm.lt_nextHandle hages.nextHandle_le
  have hhandle := (hages.fd_eq k hm.lt_nextHandle).trans hm.handle_fd
  have hstays := hages.cancelled k hm.lt_nextHandle
  rcases same_or_close h with hsame | ⟨d, rfl⟩
  · refine ⟨hlt, Nat.lt_of_lt_of_le hm.lt_next hsame.next_le, hhandle,
      (hsame.fd_eq c hm.lt_next).trans hm.stream_fd, fun hc => hstays (hm.cancelled ?_)⟩
    rw [IsOpen, ← hsame.closed_eq c hm.lt_next]
    exact hc
  · by_cases hclosed : (s.handler d).closed = true
    · rw [close, if_pos hclosed]
      exact hm
    · rw [close, if_neg hclosed] at hw' hlt hhandle hstays ⊢
      refine ⟨hlt, hm.lt_next, hhandle, ?_, fun hc => ?_⟩
      · exact (fd_netClose s.net d c).trans hm.stream_fd
      · by_cases hdc : c = d
        · -- `c` is what is closed: both slots of its fd are cleared
          refine cancelled_of_cleared hw'.coherent fun w => ?_
          rw [hhandle, installed_unregisterAll hw.coherent, if_pos]
          rw [← hdc, hm.stream_fd]
        · refine hstays (hm.cancelled ?_)
          rw [IsOpen, ← show s.setHandler d _ c = s.handler c from Function.update_of_ne hdc _ _]
          exact hc

/-! ## Runs -/

/-- So it is in every run. -/
theorem watched_of_run {ok : NioReactorServer → Action → Prop} {serverFd : Fd}
    {h : List (Option SockError)} (hr : Run step ok (NioReactorServer.start serverFd) h s) :
    s.Watched :=
  Run.invariant (fun _ s => s.Watched) (.start serverFd)
    (fun _ _ _ _ _ hw _ hs => (keeps_step hs hw).1) hr

/-- A handle made for a handler that has closed is cancelled already. -/
theorem run_lateCancel (hw : s.Watched) {c : Conn} (hc : s.IsOpen c) {k : ℕ}
    (hk : k < s.reactor.nextHandle) (hfd : (s.reactor.handle k).fd = (s.net.stream c).fd)
    {h : List (Option SockError)} (hr : Run step anyStep s h s') (hclosed : ¬ s'.IsOpen c) :
    s'.reactor.cancel k = s'.reactor := by
  have hnext : c < s.net.next := by
    by_contra hge
    have hopen := hw.linked.isOpen (by rw [hc]; exact Bool.false_ne_true)
    rw [hw.linked.not_yet c (Nat.le_of_not_lt hge)] at hopen
    cases hopen
  have hinv : s'.Watched ∧ MadeFor k c (s.net.stream c).fd s' := by
    refine Run.invariant (fun _ s' => s'.Watched ∧ MadeFor k c (s.net.stream c).fd s')
      ⟨hw, hk, hnext, hfd, rfl, fun hno => absurd hc hno⟩ ?_ hr
    rintro _ s₁ a e s₂ ⟨hw₁, hm⟩ _ hs
    exact ⟨(keeps_step hs hw₁).1, hm.step hw₁ hs⟩
  exact cancel_of_cancelled (hinv.2.cancelled hclosed)

/-- **Watchers.**  After any sequence of callbacks:
an open handler has its reader in the loop, and its writer while its send buffer is not empty;
the loop has a callback exactly where the reactor has a live handle;
every callback in the loop is that of the acceptor or of an open handler, under its own fd;
a late callback of a closed handler does nothing; and once a handler is closed, cancelling any
handle that was made for it does nothing, whoever has its fd by then. -/
theorem run_watched {serverFd : Fd} {h : List (Option SockError)}
    (hr : Run step anyStep (start serverFd) h s) :
    (∀ c, s.IsOpen c → s.reactor.readers.get (s.net.stream c).fd = some (.onRead c) ∧
      s.reactor.writers.get (s.net.stream c).fd =
        if (s.handler c).sendBuf = [] then none else some (.onWrite c)) ∧
    (∀ w fd, ((s.reactor.installed w).get fd).isSome = true ↔
      ∃ k, (s.reactor.watchers w).get fd = some k ∧ s.reactor.handle k = ⟨fd, w, false⟩) ∧
    (∀ k, s.reactor.Live k →
      (s.reactor.watchers (s.reactor.handle k).remover).get (s.reactor.handle k).fd = some k) ∧
    (∀ w fd cb, (s.reactor.installed w).get fd = some cb →
      cb = .onAccept ∧ fd = s.net.serverFd ∨
        ∃ c, (cb = .onRead c ∨ cb = .onWrite c) ∧ s.IsOpen c ∧ (s.net.stream c).fd = fd) ∧
    (∀ c, ¬ s.IsOpen c → ∀ out,
      s.onRead c out = { state := s } ∧ s.onWrite c out = { state := s } ∧ s.close c = s) ∧
    ∀ c k h' s', s.IsOpen c → k < s.reactor.nextHandle →
      (s.reactor.handle k).fd = (s.net.stream c).fd → Run step anyStep s h' s' →
        ¬ s'.IsOpen c → s'.reactor.cancel k = s'.reactor := by
  have hw := watched_of_run hr
  refine ⟨fun c hc => ⟨?_, hw.writer_eq hc⟩, fun w fd => ?_, hw.coherent.watcher_of_live,
    fun w fd cb hcb => ?_, fun c hc out => ?_, fun c k h' s' hc hk hfd hr' =>
      run_lateCancel hw hc hk hfd hr'⟩
  · exact (hw.reader_iff _ _).mpr (Or.inr ⟨c, rfl, hc, rfl⟩)
  · rw [hw.coherent.installed_iff, Option.isSome_iff_exists]
    refine exists_congr fun k => ⟨fun hk => ⟨hk, ?_⟩, And.left⟩
    exact (hw.coherent.handle_of_watcher w fd k hk).2
  · cases w with
    | reader =>
        rcases (hw.reader_iff fd cb).mp hcb with hserver | ⟨c, hcb, hc, hfd⟩
        · exact Or.inl hserver
        · exact Or.inr ⟨c, Or.inl hcb, hc, hfd⟩
    | writer =>
        obtain ⟨c, hcb, hc, hfd, -⟩ := (hw.writer_iff fd cb).mp hcb
        exact Or.inr ⟨c, Or.inr hcb, hc, hfd⟩
  · have hclosed : (s.handler c).closed = true := (Bool.not_eq_false _).mp hc
    unfold onRead onWrite close
    rw [if_pos hclosed, if_pos hclosed, if_pos hclosed]
    exact ⟨rfl, rfl, rfl⟩

/-- A handler closes while its writer is installed, its fd goes to the next connection, and then
it is called once more. -/
def reusedFdCallbacks : List Action :=
  [.onRead 0 (.ok 0), .onAccept [(7, [])] .blockingIOError, .onWrite 0 (.ok 1)]

/-- The handler that is called late has an fd that is reused; neither of its handles can harm the
new one. -/
theorem run_watched_reusedFd : ∃ s : NioReactorServer,
    s.reactor.readers.get 7 = some (.onRead 1) ∧ s.reactor.writers.get 7 = none ∧
      s.reactor.cancel 1 = s.reactor ∧ s.reactor.cancel 2 = s.reactor := by
  have hr := run_of_replay step (s := start 3)
    [.onAccept [(7, [97])] .blockingIOError, .onRead 0 (.ok 1)] rfl
  obtain ⟨-, -, -, -, -, hlate⟩ := run_watched hr
  refine ⟨_, rfl, rfl,
    hlate 0 1 _ _ rfl (by decide) rfl (run_of_replay step reusedFdCallbacks rfl) Bool.noConfusion,
    hlate 0 2 _ _ rfl (by decide) rfl (run_of_replay step reusedFdCallbacks rfl) Bool.noConfusion⟩

end NioReactorServer

end Io

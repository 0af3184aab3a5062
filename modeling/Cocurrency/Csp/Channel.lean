/-
# `Channel` (`python/csp/channel_demo.py`)

The critical sections of the five operations, and a transition system in which threads run
them: `send` and `recv` are loops that try their section again after each failure, the others
run theirs once.  The timeouts of the two events only say when a loop tries again, so a
waiting thread may do so at any time.

`run_channel` collects what holds in every run: delivery in order and exactly once, the bound
of the buffer, and what a failed operation says about the channel.
-/
import Cocurrency.Lib.Fifo
import Mathlib.Data.Int.Notation
import Mathlib.Logic.Function.Basic
import Mathlib.Tactic.SplitIfs

namespace Csp

/-! ## Critical sections -/

/-- `Channel`, over items of type `α`; `buf` is the contents of its `queue.Queue`. -/
structure Channel (α : Type*) where
  maxsize : ℤ
  buf : List α
  closed : Bool

namespace Channel

variable {α : Type*}

/-- `Channel(maxsize)`. -/
def new (maxsize : ℤ) : Channel α := ⟨maxsize, [], false⟩

/-- `queue.Queue.full()`: without a bound if `maxsize` is not positive. -/
def full (ch : Channel α) : Bool := decide (0 < ch.maxsize ∧ ch.maxsize ≤ ch.buf.length)

/-- How a section that sends ends. -/
inductive Sent where
  /-- the item is in the buffer -/
  | accepted
  /-- `ChannelClosed` is raised -/
  | closed
  /-- the buffer is full -/
  | full
  deriving DecidableEq, Repr

/-- The section of `send`, which `try_send` shares. -/
def trySend (ch : Channel α) (item : α) : Sent × Channel α :=
  if ch.closed then (.closed, ch)
  else if ch.full = false then (.accepted, { ch with buf := ch.buf ++ [item] })
  else (.full, ch)

/-- The section of `try_recv`: the item, or `(None, False)`. -/
def tryRecv (ch : Channel α) : Option α × Channel α :=
  match ch.buf with
  | item :: rest => (some item, { ch with buf := rest })
  | [] => (none, ch)

/-- How the section of `recv` ends: with a return value, or by waiting. -/
inductive Received (α : Type*) where
  | returned (item : Option α)
  | waits
  deriving DecidableEq, Repr

/-- The section of `recv`. -/
def recv (ch : Channel α) : Received α × Channel α :=
  match ch.buf with
  | item :: rest => (.returned (some item), { ch with buf := rest })
  -- `except queue.Empty`
  | [] => (if ch.closed then .returned none else .waits, ch)

/-- The section of `close`. -/
def close (ch : Channel α) : Channel α := { ch with closed := true }

end Channel

/-! ## Threads -/

/-- What a thread is doing: nothing with the channel, or in the loop of `send` or `recv`. -/
inductive Phase (α : Type*) where
  | idle
  | sending (item : α)
  | receiving
  deriving DecidableEq, Repr

/-- A channel and the threads `ι` that use it. -/
structure Threads (ι α : Type*) where
  ch : Channel α
  phase : ι → Phase α

namespace Threads

variable {ι α : Type*} [DecidableEq ι]

/-- A new channel that no thread has used yet. -/
def start (maxsize : ℤ) : Threads ι α := ⟨.new maxsize, fun _ => .idle⟩

/-- The calls, and the rounds of their loops. -/
inductive Action (ι α : Type*) where
  /-- call `send(item)` -/
  | send (t : ι) (item : α)
  /-- call `recv()` -/
  | recv (t : ι)
  /-- one round of the loop that the thread is in -/
  | loop (t : ι)
  | trySend (t : ι) (item : α)
  | tryRecv (t : ι)
  | close (t : ι)

/-- What a step shows. -/
inductive Event (ι α : Type*) where
  | called (t : ι)
  | sent (t : ι) (item : α) (r : Channel.Sent)
  | received (t : ι) (r : Channel.Received α)
  | triedSend (t : ι) (item : α) (r : Channel.Sent)
  | triedRecv (t : ι) (r : Option α)
  | closed (t : ι)

/-- Thread `t` goes on to `p`. -/
def setPhase (s : Threads ι α) (t : ι) (p : Phase α) : ι → Phase α := Function.update s.phase t p

/-- A call, or a round of a loop: one critical section. -/
def step (s : Threads ι α) : Action ι α → Option (Event ι α × Threads ι α)
  | .send t item =>
      match s.phase t with
      | .idle => some (.called t, { s with phase := s.setPhase t (.sending item) })
      | _ => none
  | .recv t =>
      match s.phase t with
      | .idle => some (.called t, { s with phase := s.setPhase t .receiving })
      | _ => none
  | .loop t =>
      match s.phase t with
      | .idle => none
      | .sending item =>
          let r := s.ch.trySend item
          some (.sent t item r.1,
            ⟨r.2, if r.1 = .full then s.phase else s.setPhase t .idle⟩)
      | .receiving =>
          match s.ch.recv with
          | (.waits, ch) => some (.received t .waits, ⟨ch, s.phase⟩)
          | (.returned item, ch) => some (.received t (.returned item), ⟨ch, s.setPhase t .idle⟩)
  | .trySend t item =>
      match s.phase t with
      | .idle =>
          let r := s.ch.trySend item
          some (.triedSend t item r.1, { s with ch := r.2 })
      | _ => none
  | .tryRecv t =>
      match s.phase t with
      | .idle =>
          let r := s.ch.tryRecv
          some (.triedRecv t r.1, { s with ch := r.2 })
      | _ => none
  | .close t =>
      match s.phase t with
      | .idle => some (.closed t, { s with ch := s.ch.close })
      | _ => none

/-! ## What a step does to the channel -/

/-- The item that an event puts into the buffer. -/
def Event.put : Event ι α → Option α
  | .sent _ item .accepted => some item
  | .triedSend _ item .accepted => some item
  | _ => none

/-- The item that an event hands out. -/
def Event.take : Event ι α → Option α
  | .received _ (.returned item) => item
  | .triedRecv _ item => item
  | _ => none

/-- A send that raises `ChannelClosed`, or finds the buffer full: `try_send` returns `False`. -/
def Event.Refuses : Event ι α → Prop
  | .sent _ _ r => r ≠ .accepted
  | .triedSend _ _ r => r ≠ .accepted
  | _ => False

/-- What an event tells about the channel before and after it. -/
inductive Effect (ch : Channel α) : Event ι α → Channel α → Prop
  | called (t : ι) : Effect ch (.called t) ch
  | sent (t : ι) (item : α) : ch.closed = false → ch.full = false →
      Effect ch (.sent t item .accepted) { ch with buf := ch.buf ++ [item] }
  | sendRefused (t : ι) (item : α) (r : Channel.Sent) : r ≠ .accepted →
      Effect ch (.sent t item r) ch
  | triedSend (t : ι) (item : α) : ch.closed = false → ch.full = false →
      Effect ch (.triedSend t item .accepted) { ch with buf := ch.buf ++ [item] }
  | trySendRefused (t : ι) (item : α) (r : Channel.Sent) : r ≠ .accepted →
      Effect ch (.triedSend t item r) ch
  | received (t : ι) (item : α) (rest : List α) : ch.buf = item :: rest →
      Effect ch (.received t (.returned (some item))) { ch with buf := rest }
  | recvEnded (t : ι) : ch.buf = [] → ch.closed = true →
      Effect ch (.received t (.returned none)) ch
  | recvWaits (t : ι) : Effect ch (.received t .waits) ch
  | triedRecv (t : ι) (item : α) (rest : List α) : ch.buf = item :: rest →
      Effect ch (.triedRecv t (some item)) { ch with buf := rest }
  | tryRecvFailed (t : ι) : ch.buf = [] → Effect ch (.triedRecv t none) ch
  | closed (t : ι) : Effect ch (.closed t) { ch with closed := true }

section Sections

variable {τ : Type*} (ch : Channel α) (t : τ) (item : α)

/-- `try_send` and a round of `send`. -/
theorem effect_trySend :
    Effect ch (.sent t item (ch.trySend item).1) (ch.trySend item).2 ∧
      Effect ch (.triedSend t item (ch.trySend item).1) (ch.trySend item).2 := by
  unfold Channel.trySend
  split_ifs with hclosed hfull
  · exact ⟨.sendRefused t item _ nofun, .trySendRefused t item _ nofun⟩
  · have hopen : ch.closed = false := Bool.eq_false_iff.mpr hclosed
    exact ⟨.sent t item hopen hfull, .triedSend t item hopen hfull⟩
  · exact ⟨.sendRefused t item _ nofun, .trySendRefused t item _ nofun⟩

/-- A round of `recv`. -/
theorem effect_recv : Effect ch (.received t ch.recv.1) ch.recv.2 := by
  unfold Channel.recv
  cases hbuf : ch.buf with
  | cons item rest => exact .received t item rest hbuf
  | nil =>
      dsimp only
      split_ifs with hclosed
      · exact .recvEnded t hbuf hclosed
      · exact .recvWaits t

/-- `try_recv`. -/
theorem effect_tryRecv : Effect ch (.triedRecv t ch.tryRecv.1) ch.tryRecv.2 := by
  unfold Channel.tryRecv
  cases hbuf : ch.buf with
  | cons item rest => exact .triedRecv t item rest hbuf
  | nil => exact .tryRecvFailed t hbuf

end Sections

/-- Every step has the effect that its event tells. -/
theorem effect_step {s s' : Threads ι α} {a : Action ι α} {e : Event ι α}
    (h : s.step a = some (e, s')) : Effect s.ch e s'.ch := by
  unfold step at h
  cases a with
  | send t item =>
      dsimp only at h
      split at h
      · cases h
        exact .called t
      · cases h
  | recv t =>
      dsimp only at h
      split at h
      · cases h
        exact .called t
      · cases h
  | loop t =>
      dsimp only at h
      split at h
      · cases h
      · next item _ =>
        cases h
        exact (effect_trySend s.ch t item).1
      · have heffect := effect_recv s.ch t
        split at h
        · next hrecv =>
          cases h
          rw [hrecv] at heffect
          exact heffect
        · next hrecv =>
          cases h
          rw [hrecv] at heffect
          exact heffect
  | trySend t item =>
      dsimp only at h
      split at h
      · cases h
        exact (effect_trySend s.ch t item).2
      · cases h
  | tryRecv t =>
      dsimp only at h
      split at h
      · cases h
        exact effect_tryRecv s.ch t
      · cases h
  | close t =>
      dsimp only at h
      split at h
      · cases h
        exact .closed t
      · cases h

namespace Effect

variable {τ : Type*} {ch ch' : Channel α} {e : Event τ α}

/-- A send that is refused puts nothing. -/
theorem put_of_refused {r : Channel.Sent} (hr : r ≠ .accepted) (t : τ) (item : α) :
    (Event.sent t item r).put = none ∧ (Event.triedSend t item r).put = none := by
  cases r with
  | accepted => exact absurd rfl hr
  | closed => exact ⟨rfl, rfl⟩
  | full => exact ⟨rfl, rfl⟩

/-- Every call keeps the balance. -/
theorem balanced (h : Effect ch e ch') : Fifo.Balanced e.put e.take ch.buf ch'.buf := by
  cases h with
  | sent t item _ _ => exact .put item _
  | triedSend t item _ _ => exact .put item _
  | sendRefused t item r hr =>
      rw [(put_of_refused hr t item).1]
      exact .unchanged _
  | trySendRefused t item r hr =>
      rw [(put_of_refused hr t item).2]
      exact .unchanged _
  | received t item rest hbuf =>
      rw [hbuf]
      exact .take item rest
  | triedRecv t item rest hbuf =>
      rw [hbuf]
      exact .take item rest
  | called | recvEnded | recvWaits | tryRecvFailed | closed => exact .unchanged _

/-- The bound does not change. -/
theorem maxsize_eq (h : Effect ch e ch') : ch'.maxsize = ch.maxsize := by
  cases h <;> rfl

/-- The bound of the buffer is kept: a send finds room for one more. -/
theorem length_le (h : Effect ch e ch') (hmax : 0 < ch.maxsize)
    (hle : (ch.buf.length : ℤ) ≤ ch.maxsize) : (ch'.buf.length : ℤ) ≤ ch'.maxsize := by
  have hroom : ch.full = false → (ch.buf.length : ℤ) < ch.maxsize := by
    intro hfull
    rw [Channel.full, decide_eq_false_iff_not] at hfull
    exact Int.not_le.mp fun hge => hfull ⟨hmax, hge⟩
  cases h with
  | sent t item _ hfull =>
      rw [List.length_append]
      exact Int.add_one_le_of_lt (hroom hfull)
  | triedSend t item _ hfull =>
      rw [List.length_append]
      exact Int.add_one_le_of_lt (hroom hfull)
  | received t item rest hbuf =>
      rw [hbuf, List.length_cons] at hle
      exact Int.le_trans (Int.ofNat_le.mpr (Nat.le_succ _)) hle
  | triedRecv t item rest hbuf =>
      rw [hbuf, List.length_cons] at hle
      exact Int.le_trans (Int.ofNat_le.mpr (Nat.le_succ _)) hle
  | called | sendRefused | trySendRefused | recvEnded | recvWaits | tryRecvFailed | closed =>
      exact hle

/-- A closed channel stays closed, and accepts nothing. -/
theorem of_closed (h : Effect ch e ch') (hclosed : ch.closed = true) :
    ch'.closed = true ∧ e.put = none := by
  cases h with
  | sent t item hopen _ => exact absurd (hopen.symm.trans hclosed) Bool.false_ne_true
  | triedSend t item hopen _ => exact absurd (hopen.symm.trans hclosed) Bool.false_ne_true
  | sendRefused t item r hr => exact ⟨hclosed, (put_of_refused hr t item).1⟩
  | trySendRefused t item r hr => exact ⟨hclosed, (put_of_refused hr t item).2⟩
  | closed => exact ⟨rfl, rfl⟩
  | called | received | recvEnded | recvWaits | triedRecv | tryRecvFailed =>
      exact ⟨hclosed, rfl⟩

/-- What is refused changes nothing. -/
theorem eq_of_refuses (h : Effect ch e ch') (hr : e.Refuses) : ch' = ch := by
  cases h with
  | sent | triedSend => exact absurd rfl hr
  | sendRefused | trySendRefused => rfl
  | called | received | recvEnded | recvWaits | triedRecv | tryRecvFailed | closed => exact hr.elim

end Effect

/-! ## Runs -/

section Runs

variable {maxsize : ℤ} {h : List (Event ι α)} {s : Threads ι α}

/-- First in, first out, in every run. -/
theorem run_fifo (hr : Run step anyStep (start maxsize) h s) :
    h.filterMap Event.take ++ s.ch.buf = h.filterMap Event.put := by
  have hfifo := hr.fifo Event.put Event.take (fun s => s.ch.buf)
    fun _ _ _ _ _ _ _ hs => (effect_step hs).balanced
  exact hfifo.symm

/-- The bound is kept in every run. -/
theorem run_length_le (hr : Run step anyStep (start maxsize) h s) (hmax : 0 < maxsize) :
    (s.ch.buf.length : ℤ) ≤ maxsize := by
  have hinv : s.ch.maxsize = maxsize ∧ (s.ch.buf.length : ℤ) ≤ s.ch.maxsize := by
    refine Run.invariant (fun _ s => s.ch.maxsize = maxsize ∧ (s.ch.buf.length : ℤ) ≤ s.ch.maxsize)
      ⟨rfl, Int.le_of_lt hmax⟩ ?_ hr
    rintro _ s a e s' ⟨heq, hle⟩ _ hs
    have heffect := effect_step hs
    exact ⟨heffect.maxsize_eq.trans heq, heffect.length_le (by rw [heq]; exact hmax) hle⟩
  rw [← hinv.1]
  exact hinv.2

/-- After a `close`, the channel is closed, and nothing more is accepted. -/
theorem run_closed (hr : Run step anyStep (start maxsize) h s) :
    ∀ h₁ t h₂, h = h₁ ++ Event.closed t :: h₂ →
      s.ch.closed = true ∧ h₂.filterMap Event.put = [] := by
  induction hr with
  | nil =>
      intro h₁ t h₂ heq
      exact absurd heq.symm (List.append_ne_nil_of_right_ne_nil _ (List.cons_ne_nil _ _))
  | @snoc h s s' a e _ _ hs ih =>
      intro h₁ t h₂ heq
      have heffect := effect_step hs
      rcases List.eq_nil_or_concat h₂ with rfl | ⟨h₂', x, rfl⟩
      · -- the last step is the `close`
        obtain ⟨-, rfl⟩ := List.append_singleton_inj.mp heq
        generalize s'.ch = ch' at heffect ⊢
        cases heffect
        exact ⟨rfl, rfl⟩
      · rw [List.concat_eq_append, ← List.cons_append, ← List.append_assoc] at heq
        obtain ⟨hinit, rfl⟩ := List.append_singleton_inj.mp heq
        obtain ⟨hclosed, hnone⟩ := ih h₁ t h₂' hinit
        obtain ⟨hclosed', hput⟩ := heffect.of_closed hclosed
        refine ⟨hclosed', ?_⟩
        rw [List.concat_eq_append, List.filterMap_append, hnone]
        simp [hput]

/-- **The channel.**  In every run: what is handed out, followed by the buffer, is what was
accepted, in order; the buffer keeps to its bound; nothing is accepted after a `close`.  And of
every next step: a send that is refused leaves the channel as it is; `recv` returns `None` only
when the channel is closed and all that was accepted has been handed out; `try_recv` fails only
on an empty buffer. -/
theorem run_channel (hr : Run step anyStep (start maxsize) h s) :
    h.filterMap Event.take ++ s.ch.buf = h.filterMap Event.put ∧
    (0 < maxsize → (s.ch.buf.length : ℤ) ≤ maxsize) ∧
    (∀ h₁ t h₂, h = h₁ ++ Event.closed t :: h₂ → h₂.filterMap Event.put = []) ∧
    ∀ a e s', s.step a = some (e, s') →
      (e.Refuses → s'.ch = s.ch) ∧
      (∀ t, e = .received t (.returned none) →
        s.ch.closed = true ∧ h.filterMap Event.take = h.filterMap Event.put) ∧
      ∀ t, e = .triedRecv t none → s.ch.buf = [] := by
  have hfifo := run_fifo hr
  refine ⟨hfifo, run_length_le hr, fun h₁ t h₂ heq => (run_closed hr h₁ t h₂ heq).2,
    fun a e s' hs => ?_⟩
  have heffect := effect_step hs
  refine ⟨heffect.eq_of_refuses, ?_, ?_⟩ <;> generalize s'.ch = ch' at heffect
  · rintro t rfl
    cases heffect with
    | recvEnded _ hbuf hclosed =>
        rw [hbuf, List.append_nil] at hfifo
        exact ⟨hclosed, hfifo⟩
  · rintro t rfl
    cases heffect with
    | tryRecvFailed _ hbuf => exact hbuf

/-- One place, two senders: the second waits in its loop until the first item is received, and
finds the channel closed. -/
theorem run_channel_closed : ∃ (h : List (Event ℕ ℕ)) (s : Threads ℕ ℕ), s.ch.closed = true ∧
    h.filterMap Event.take = [5] ∧ h.filterMap Event.take ++ s.ch.buf = h.filterMap Event.put := by
  have hr := run_of_replay (step (ι := ℕ) (α := ℕ)) (s := start 1)
    [.send 0 5, .send 1 6, .loop 0, .loop 1, .close 3, .recv 2, .loop 2, .loop 1] rfl
  exact ⟨_, _, rfl, rfl, (run_channel hr).1⟩

end Runs

end Threads

end Csp

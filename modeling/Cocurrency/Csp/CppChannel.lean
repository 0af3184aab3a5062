/-
# `Channel` (`cpp/csp/channel_demo.cpp`)

`send` and `recv` take the mutex, wait on a condition variable until a predicate holds, and
then run to their end.  A wait may end at any time at which its predicate holds, so such a
call has two steps: it starts, and it is finished under its predicate.

The predicate of `send` asks for an open channel, and the test after the wait for a closed one:
once `close` has run, a sender stays where it is (`not_sendersProceed`).  All goes well exactly
as long as `close` runs while no thread is inside `send`, and nothing is sent afterwards
(`run_cppChannel`).
-/
import Cocurrency.Lib.Fifo
import Mathlib.Data.Fintype.Basic
import Mathlib.Logic.Function.Basic
import Mathlib.Tactic.SplitIfs

namespace Csp

/-- `Channel<T>`. -/
structure CppChannel (α : Type*) where
  capacity : ℕ
  closed : Bool
  queue : List α

namespace CppChannel

variable {α : Type*}

/-- `Channel(capacity)`. -/
def new (capacity : ℕ) : CppChannel α := ⟨capacity, false, []⟩

/-- The predicate that `send` waits for. -/
def sendReady (ch : CppChannel α) : Bool :=
  !ch.closed && (decide (ch.capacity = 0) || decide (ch.queue.length < ch.capacity))

/-- `send`, after its wait: whether it throws, and the channel it leaves. -/
def send (ch : CppChannel α) (item : α) : Bool × CppChannel α :=
  if ch.closed then (true, ch) else (false, { ch with queue := ch.queue ++ [item] })

/-- The predicate that `recv` waits for. -/
def recvReady (ch : CppChannel α) : Bool := !ch.queue.isEmpty || ch.closed

/-- `recv`, after its wait: the item, or nothing if it throws.  The queue is empty then only if
the channel is closed. -/
def recv (ch : CppChannel α) : Option α × CppChannel α :=
  match ch.queue with
  | item :: rest => (some item, { ch with queue := rest })
  | [] => (none, ch)

/-- `close`. -/
def close (ch : CppChannel α) : CppChannel α := { ch with closed := true }

end CppChannel

/-- Where a thread is. -/
inductive CppPhase (α : Type*) where
  | idle
  /-- inside `send(item)`, before the end of its wait -/
  | sending (item : α)
  /-- inside `recv()`, before the end of its wait -/
  | receiving
  deriving DecidableEq, Repr

/-- Is the thread inside `send`? -/
def CppPhase.isSending {α : Type*} : CppPhase α → Bool
  | .sending _ => true
  | _ => false

/-- A channel and the threads `ι` that use it. -/
structure CppThreads (ι α : Type*) where
  ch : CppChannel α
  phase : ι → CppPhase α

namespace CppThreads

/-- What a thread does next. -/
inductive Action (ι α : Type*) where
  | send (t : ι) (item : α)
  | recv (t : ι)
  /-- the wait of the call ends, and the call with it -/
  | finish (t : ι)
  | close (t : ι)

/-- What a step shows. -/
inductive Event (ι α : Type*) where
  | called (t : ι)
  | sent (t : ι) (item : α)
  /-- `send on closed channel` -/
  | sendThrew (t : ι)
  | received (t : ι) (item : α)
  /-- `channel closed and empty` -/
  | recvThrew (t : ι)
  | closed (t : ι)

section Step

variable {ι α : Type*} [DecidableEq ι]

/-- A new channel that no thread has used yet. -/
def start (capacity : ℕ) : CppThreads ι α := ⟨.new capacity, fun _ => .idle⟩

/-- Thread `t` goes on to `p`. -/
def setPhase (s : CppThreads ι α) (t : ι) (p : CppPhase α) : ι → CppPhase α :=
  Function.update s.phase t p

/-- The next step, unless the thread waits. -/
def step (s : CppThreads ι α) : Action ι α → Option (Event ι α × CppThreads ι α)
  | .send t item =>
      match s.phase t with
      | .idle => some (.called t, { s with phase := s.setPhase t (.sending item) })
      | _ => none
  | .recv t =>
      match s.phase t with
      | .idle => some (.called t, { s with phase := s.setPhase t .receiving })
      | _ => none
  | .finish t =>
      match s.phase t with
      | .idle => none
      | .sending item =>
          if s.ch.sendReady then
            some (if (s.ch.send item).1 then .sendThrew t else .sent t item,
              ⟨(s.ch.send item).2, s.setPhase t .idle⟩)
          else none
      | .receiving =>
          if s.ch.recvReady then
            match s.ch.recv with
            | (some item, ch) => some (.received t item, ⟨ch, s.setPhase t .idle⟩)
            | (none, ch) => some (.recvThrew t, ⟨ch, s.setPhase t .idle⟩)
          else none
  | .close t =>
      match s.phase t with
      | .idle => some (.closed t, { s with ch := s.ch.close })
      | _ => none

end Step

variable {ι α : Type*}

/-! ## What a step does -/

/-- The item that an event puts into the queue. -/
def Event.put : Event ι α → Option α
  | .sent _ item => some item
  | _ => none

/-- The item that an event takes out of the queue. -/
def Event.take : Event ι α → Option α
  | .received _ item => some item
  | _ => none

/-- Once the channel is closed, every sender can go on to throw. -/
def SendersProceed (s : CppThreads ι α) : Prop :=
  ¬ (s.ch.closed = true ∧ ∃ t, (s.phase t).isSending = true ∧ s.ch.sendReady = false)

/-- `close` runs while no thread is inside `send`, and no thread calls `send` afterwards. -/
def ClosesQuietly (s : CppThreads ι α) : Action ι α → Prop
  | .send _ _ => s.ch.closed = false
  | .close _ => ∀ t, (s.phase t).isSending = false
  | _ => True

instance [Fintype ι] (s : CppThreads ι α) : ∀ a, Decidable (s.ClosesQuietly a)
  | .send _ _ => inferInstanceAs (Decidable (s.ch.closed = false))
  | .close _ => inferInstanceAs (Decidable (∀ t, (s.phase t).isSending = false))
  | .recv _ | .finish _ => .isTrue trivial

/-- A sender waits after the channel has been closed. -/
theorem sendReady_of_closed {ch : CppChannel α} (h : ch.closed = true) : ch.sendReady = false := by
  rw [CppChannel.sendReady, h]
  rfl

/-- A sender that goes on finds the channel open. -/
theorem open_of_sendReady {ch : CppChannel α} (h : ch.sendReady = true) : ch.closed = false := by
  rw [CppChannel.sendReady, Bool.and_eq_true] at h
  exact (Bool.not_eq_true' _).mp h.1

/-- A receiver that finds nothing finds the channel closed. -/
theorem closed_of_recvReady {ch : CppChannel α} (h : ch.recvReady = true) (hq : ch.queue = []) :
    ch.closed = true := by
  rw [CppChannel.recvReady, hq] at h
  exact h

/-- On a closed channel no sender can go on, so there must be none. -/
theorem sendersProceed_iff (s : CppThreads ι α) :
    s.SendersProceed ↔ (s.ch.closed = true → ∀ t, (s.phase t).isSending = false) := by
  constructor
  · intro h hclosed t
    by_contra hsending
    exact h ⟨hclosed, t, (Bool.not_eq_false _).mp hsending, sendReady_of_closed hclosed⟩
  · rintro h ⟨hclosed, t, hsending, -⟩
    exact absurd ((h hclosed t).symm.trans hsending) Bool.false_ne_true

variable [DecidableEq ι]

/-- What a step does, to the thread that takes it and to the channel. -/
inductive Effect (s : CppThreads ι α) : Action ι α → Event ι α → CppThreads ι α → Prop
  | send (t : ι) (item : α) : s.phase t = .idle →
      Effect s (.send t item) (.called t) { s with phase := s.setPhase t (.sending item) }
  | recv (t : ι) : s.phase t = .idle →
      Effect s (.recv t) (.called t) { s with phase := s.setPhase t .receiving }
  | sent (t : ι) (item : α) : s.phase t = .sending item → s.ch.closed = false →
      Effect s (.finish t) (.sent t item)
        ⟨{ s.ch with queue := s.ch.queue ++ [item] }, s.setPhase t .idle⟩
  | received (t : ι) (item : α) (rest : List α) : s.ch.queue = item :: rest →
      Effect s (.finish t) (.received t item)
        ⟨{ s.ch with queue := rest }, s.setPhase t .idle⟩
  | recvThrew (t : ι) : s.ch.queue = [] → s.ch.closed = true →
      Effect s (.finish t) (.recvThrew t) { s with phase := s.setPhase t .idle }
  | close (t : ι) : s.phase t = .idle →
      Effect s (.close t) (.closed t) { s with ch := s.ch.close }

/-- What a step does. -/
theorem effect_step {s s' : CppThreads ι α} {a : Action ι α} {e : Event ι α}
    (h : s.step a = some (e, s')) : Effect s a e s' := by
  unfold step at h
  cases a with
  | send t item =>
      dsimp only at h
      split at h
      · next hidle =>
        cases h
        exact .send t item hidle
      · cases h
  | recv t =>
      dsimp only at h
      split at h
      · next hidle =>
        cases h
        exact .recv t hidle
      · cases h
  | finish t =>
      dsimp only at h
      split at h
      · cases h
      · next item hsending =>
        by_cases hready : s.ch.sendReady = true
        · -- the wait has ended, so the channel is open and nothing is thrown
          have hopen := open_of_sendReady hready
          have hsend : s.ch.send item = (false, { s.ch with queue := s.ch.queue ++ [item] }) := by
            rw [CppChannel.send, if_neg (by rw [hopen]; exact Bool.false_ne_true)]
          rw [if_pos hready, hsend] at h
          cases h
          exact .sent t item hsending hopen
        · rw [if_neg hready] at h
          cases h
      · by_cases hready : s.ch.recvReady = true
        · rw [if_pos hready, CppChannel.recv] at h
          cases hqueue : s.ch.queue with
          | cons item rest =>
              rw [hqueue] at h
              cases h
              exact .received t item rest hqueue
          | nil =>
              rw [hqueue] at h
              cases h
              exact .recvThrew t hqueue (closed_of_recvReady hready hqueue)
        · rw [if_neg hready] at h
          cases h
  | close t =>
      dsimp only at h
      split at h
      · next hidle =>
        cases h
        exact .close t hidle
      · cases h

namespace Effect

variable {s s' : CppThreads ι α} {a : Action ι α} {e : Event ι α}

/-- A step puts a value at the end of the queue, takes one from its front, or leaves it. -/
theorem balanced (h : Effect s a e s') :
    Fifo.Balanced e.put e.take s.ch.queue s'.ch.queue := by
  cases h with
  | sent t item _ _ => exact .put item _
  | received t item rest hqueue =>
      rw [hqueue]
      exact .take item rest
  | send | recv | recvThrew | close => exact .unchanged _

/-- A thread that leaves its call, or calls `recv`, is no sender. -/
theorem not_sending {t : ι} {p : CppPhase α} (hp : p.isSending = false)
    (h : ∀ t, (s.phase t).isSending = false) : ∀ u, (s.setPhase t p u).isSending = false :=
  (Function.forall_update_iff s.phase fun _ p => p.isSending = false).mpr ⟨hp, fun u _ => h u⟩

/-- A step keeps the senders going if and only if it closes quietly. -/
theorem sendersProceed_iff (h : Effect s a e s') (hs : s.SendersProceed) :
    s'.SendersProceed ↔ s.ClosesQuietly a := by
  rw [CppThreads.sendersProceed_iff] at hs ⊢
  cases h with
  | send t item hidle =>
      constructor
      · intro hall
        show s.ch.closed = false
        by_contra hclosed
        have hout : (s.setPhase t (.sending item) t).isSending = false :=
          hall ((Bool.not_eq_false _).mp hclosed) t
        rw [setPhase, Function.update_self] at hout
        cases hout
      · intro hopen hclosed
        exact absurd (hopen.symm.trans hclosed) Bool.false_ne_true
  | close t hidle => exact ⟨fun hall => hall rfl, fun hall _ => hall⟩
  | sent t item _ hopen =>
      exact iff_of_true (fun hclosed => absurd (hopen.symm.trans hclosed) Bool.false_ne_true)
        trivial
  | recv t hidle => exact iff_of_true (fun hclosed => not_sending rfl (hs hclosed)) trivial
  | received t item rest _ =>
      exact iff_of_true (fun hclosed => not_sending rfl (hs hclosed)) trivial
  | recvThrew t _ _ => exact iff_of_true (fun hclosed => not_sending rfl (hs hclosed)) trivial

end Effect

/-! ## Runs -/

/-- **The channel.**  In every run the items come out as they went in, `recv` throws only when the
queue is empty and the channel closed, and if the senders can proceed, they still can after
the next step if and only if that step closes quietly.  In a run that closes quietly the senders
can always proceed. -/
theorem run_cppChannel :
    (∀ capacity h (s : CppThreads ι α), Run step anyStep (start capacity) h s →
      h.filterMap Event.take ++ s.ch.queue = h.filterMap Event.put ∧
      ∀ a e s', s.step a = some (e, s') →
        (∀ t, e = .recvThrew t → s.ch.queue = [] ∧ s.ch.closed = true) ∧
        (s.SendersProceed → (s'.SendersProceed ↔ s.ClosesQuietly a))) ∧
    ∀ capacity h (s : CppThreads ι α), Run step ClosesQuietly (start capacity) h s →
      s.SendersProceed := by
  refine ⟨fun capacity h s hr => ⟨?_, fun a e s' hs => ⟨?_, ?_⟩⟩, fun capacity h s hr => ?_⟩
  · exact (hr.fifo Event.put Event.take (fun s => s.ch.queue)
      fun _ _ _ _ _ _ _ hs => (effect_step hs).balanced).symm
  · rintro t rfl
    cases effect_step hs with
    | recvThrew _ hqueue hclosed => exact ⟨hqueue, hclosed⟩
  · exact (effect_step hs).sendersProceed_iff
  · refine Run.invariant (fun _ s => s.SendersProceed) ?_ ?_ hr
    · rintro ⟨hclosed, -⟩
      cases hclosed
    · intro _ s a e s' hproceed hquiet hs
      exact ((effect_step hs).sendersProceed_iff hproceed).mpr hquiet

/-- One place, and it is taken: a second sender waits, the channel is closed, and the sender
waits for ever. -/
theorem not_sendersProceed : ¬ ∀ capacity h (s : CppThreads ℕ ℕ),
    Run step anyStep (start capacity) h s → s.SendersProceed := by
  intro hall
  have hr := run_of_replay (step (ι := ℕ) (α := ℕ)) (s := start 1)
    [.send 0 5, .finish 0, .send 0 6, .close 1] rfl
  exact hall 1 _ _ hr ⟨rfl, 0, rfl, rfl⟩

/-- As in the demo: the sender closes the channel after its last `send`, and the receiver drains
it. -/
def quietCalls : List (Action Bool ℕ) :=
  [.send true 5, .finish true, .close true, .recv false, .finish false]

/-- A run in which nobody sends after the channel has been closed. -/
theorem run_cppChannel_quiet : ∃ (h : List (Event Bool ℕ)) (s : CppThreads Bool ℕ),
    s.ch.closed = true ∧ h.filterMap Event.take ++ s.ch.queue = h.filterMap Event.put ∧
      s.SendersProceed := by
  have hr := run_of_replay (step (ι := Bool) (α := ℕ)) (s := start 1) quietCalls rfl
  have hquiet := run_of_replay_guarded (step (ι := Bool) (α := ℕ)) ClosesQuietly (s := start 1)
    quietCalls rfl
  exact ⟨_, _, rfl, (run_cppChannel.1 1 _ _ hr).1, run_cppChannel.2 1 _ _ hquiet⟩

end CppThreads

end Csp

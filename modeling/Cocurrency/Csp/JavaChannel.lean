/-
# `Channel` (`java/csp/ChannelDemo.java`)

A wrapper around `LinkedBlockingQueue`: `send` is `put`, which waits for room, and `recv` is
`take`, which waits for an item.  A call has two steps, as in `CppChannel`: it starts, and it is
finished when the queue allows it.
-/
import Cocurrency.Lib.Fifo
import Mathlib.Logic.Function.Basic

namespace Csp

/-- `Channel<T>`, with its `LinkedBlockingQueue`. -/
structure JavaChannel (α : Type*) where
  /-- the capacity of the queue -/
  capacity : ℕ
  queue : List α

/-- `Channel(capacity)`. -/
def JavaChannel.new {α : Type*} (capacity : ℕ) : JavaChannel α :=
  ⟨if 0 < capacity then capacity else 1, []⟩

/-- Where a thread is. -/
inductive JavaPhase (α : Type*) where
  | idle
  /-- in `send(item)`, waiting for room -/
  | sending (item : α)
  /-- in `recv()`, waiting for an item -/
  | receiving
  deriving DecidableEq, Repr

/-- A channel and the threads `ι` that use it. -/
structure JavaThreads (ι α : Type*) where
  ch : JavaChannel α
  phase : ι → JavaPhase α

namespace JavaThreads

variable {ι α : Type*} [DecidableEq ι]

/-- The calls of the methods, and their ends. -/
inductive Action (ι α : Type*) where
  | send (t : ι) (item : α)
  | recv (t : ι)
  /-- the call that the thread is in goes through -/
  | finish (t : ι)

/-- What a step shows. -/
inductive Event (ι α : Type*) where
  | called (t : ι)
  | sent (t : ι) (item : α)
  | received (t : ι) (item : α)

/-- A new channel that no thread has used yet. -/
def start (capacity : ℕ) : JavaThreads ι α := ⟨.new capacity, fun _ => .idle⟩

/-- Thread `t` goes on to `p`. -/
def setPhase (s : JavaThreads ι α) (t : ι) (p : JavaPhase α) : ι → JavaPhase α :=
  Function.update s.phase t p

/-- The next step, unless the thread waits. -/
def step (s : JavaThreads ι α) : Action ι α → Option (Event ι α × JavaThreads ι α)
  | .send t item =>
      match s.phase t with
      | .idle => some (.called t, { s with phase := s.setPhase t (.sending item) })
      | _ => none
  | .recv t =>
      match s.phase t with
      | .idle => some (.called t, { s with phase := s.setPhase t .receiving })
      | _ => none
  | .finish t =>
      match s.phase t with
      | .idle => none
      | .sending item =>
          if s.ch.queue.length < s.ch.capacity then
            some (.sent t item,
              ⟨{ s.ch with queue := s.ch.queue ++ [item] }, s.setPhase t .idle⟩)
          else none
      | .receiving =>
          match s.ch.queue with
          | item :: rest =>
              some (.received t item, ⟨{ s.ch with queue := rest }, s.setPhase t .idle⟩)
          | [] => none

/-- The item that an event takes out of the queue. -/
def Event.take {ι α : Type*} : Event ι α → Option α
  | .received _ item => some item
  | _ => none

end JavaThreads

end Csp

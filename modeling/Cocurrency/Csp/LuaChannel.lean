/-
# `Channel` and `scheduler` (`lua/csp/channel.lua`)

Coroutines that send and receive, and the scheduler that resumes them one after the other.  A
coroutine is resumed from two places: by `scheduler`, which keeps every suspended coroutine in
its list, and by a peer, in `send` and `recv`, which take it out of the waiting lists.  One
step runs the running coroutine up to the next thing that can be seen: a value that goes into
the buffer or comes out of it, a return, a suspension, an end; or it is a step of the
scheduler.  The coroutines that have called `coroutine.resume` wait on a stack.
-/
import Cocurrency.Lib.Fifo
import Mathlib.Algebra.BigOperators.Group.List.Basic
import Mathlib.Algebra.BigOperators.Group.Finset.Basic
import Mathlib.Algebra.Ring.Nat
import Mathlib.Logic.Function.Basic
import Mathlib.Tactic.SplitIfs

namespace Csp

/-! ## Coroutines -/

/-- A coroutine, by its place in the list given to `scheduler`. -/
abbrev Co := ℕ

/-- What is given to `scheduler`: `producer(ch, values)` or `consumer(ch, count)`.  The values are
integers, for which the lines with `%d` that both print raise no error; the lines are left out. -/
inductive Body (α : Type*) where
  | producer (values : List α)
  | consumer (count : ℕ)
  deriving Repr

/-- How far a coroutine has got. -/
inductive Point (α : Type*) where
  /-- in the loop of `producer`, with these values to go -/
  | produce (values : List α)
  /-- at the `coroutine.yield()` of `send(value)` -/
  | store (value : α) (rest : List α)
  /-- in `send`, which returns next -/
  | sent (rest : List α)
  /-- in the loop of `consumer`, with this many rounds to go -/
  | consume (count : ℕ)
  /-- at the `coroutine.yield()` of `recv()` -/
  | fetch (count : ℕ)
  /-- in `recv`, which returns `item` next -/
  | got (item : Option α) (count : ℕ)
  | dead
  deriving Repr

namespace Point

variable {α : Type*}

/-- `coroutine.status(co) == "dead"`. -/
def isDead : Point α → Bool
  | dead => true
  | _ => false

/-- In the loop of `producer` or of `consumer`? -/
def isLooping : Point α → Bool
  | produce _ | consume _ => true
  | _ => false

/-- At the yield of `send`? -/
def isStore : Point α → Bool
  | store _ _ => true
  | _ => false

/-- At the yield of `recv`? -/
def isFetch : Point α → Bool
  | fetch _ => true
  | _ => false

/-- In `send` or `recv`, after the yield, if there was one? -/
def isReturning : Point α → Bool
  | sent _ | got _ _ => true
  | _ => false

end Point

/-- Where a coroutine starts. -/
def Body.point {α : Type*} : Body α → Point α
  | producer values => .produce values
  | consumer count => .consume count

/-! ## Channel and scheduler -/

/-- `Channel.new`. -/
structure LuaChannel (α : Type*) where
  buffer : List α
  capacity : ℕ
  senders : List Co
  receivers : List Co
  closed : Bool

/-- The channel, the coroutines, and the `threads` of `scheduler`. -/
structure Lua (α : Type*) where
  ch : LuaChannel α
  point : Co → Point α
  /-- the running coroutine, then those that have resumed it -/
  stack : List Co
  threads : List Co

/-- What a step shows. -/
inductive LuaEvent (α : Type*) where
  /-- `scheduler` resumes a coroutine -/
  | resumed (c : Co)
  /-- `scheduler` drops a dead coroutine, after printing an error -/
  | dropped (c : Co)
  /-- a value goes into the buffer -/
  | stored (c : Co) (value : α)
  | sendReturned (c : Co)
  /-- `recv` takes a value out of the buffer -/
  | took (c : Co) (value : α)
  /-- `recv` finds nothing to return -/
  | tookNil (c : Co)
  | recvReturned (c : Co) (item : Option α)
  | suspended (c : Co)
  | ended (c : Co)
  /-- `send on closed channel` -/
  | failed (c : Co)
  deriving Repr

namespace LuaEvent

variable {α : Type*}

/-- The value that goes into the buffer. -/
def put : LuaEvent α → Option α
  | stored _ value => some value
  | _ => none

/-- The value that comes out of it, to be returned by `recv`. -/
def take : LuaEvent α → Option α
  | took _ value => some value
  | _ => none

/-- Does a `send` return? -/
def sendReturns : LuaEvent α → Bool
  | sendReturned _ => true
  | _ => false

/-- Does `recv` find nothing to return? -/
def isNil : LuaEvent α → Bool
  | tookNil _ | recvReturned _ none => true
  | _ => false

/-- The steps that an event takes off the weight of a coroutine: one for each, and for a
suspension one more, for the place in `threads`. -/
def relief : LuaEvent α → ℕ
  | resumed _ | dropped _ => 0
  | suspended _ => 2
  | _ => 1

end LuaEvent

namespace Lua

variable {α : Type*}

/-- `scheduler(cos)`, on a new channel. -/
def start (capacity : ℕ) (cos : List (Body α)) : Lua α where
  ch := ⟨[], capacity, [], [], false⟩
  point c := (cos[c]?.map Body.point).getD .dead
  stack := []
  threads := List.range cos.length

/-- Coroutine `c` goes on to `p`. -/
def setPoint (s : Lua α) (c : Co) (p : Point α) : Lua α :=
  { s with point := Function.update s.point c p }

/-- `coroutine.resume(c)` by the running coroutine: it fails, with no effect, unless `c` is
suspended. -/
def resume (s : Lua α) (c : Co) : Lua α :=
  if c ∈ s.stack ∨ (s.point c).isDead = true then s else { s with stack := c :: s.stack }

/-- `coroutine.yield()` by the running coroutine `c`, at `p`: whoever resumed it goes on;
`scheduler` puts it at the end of its list. -/
def yield (s : Lua α) (c : Co) (p : Point α) : Lua α :=
  { s.setPoint c p with
    stack := s.stack.tail
    threads := if s.stack.tail = [] then s.threads ++ [c] else s.threads }

/-- The running coroutine `c` ends; `scheduler` drops it. -/
def finish (s : Lua α) (c : Co) : Lua α := { s.setPoint c .dead with stack := s.stack.tail }

/-- `Channel:send(value)`, up to its yield or to its return, with `rest` to be sent next. -/
def send (s : Lua α) (c : Co) (value : α) (rest : List α) : LuaEvent α × Lua α :=
  if s.ch.closed then (.failed c, s.finish c)
  else
    match s.ch.receivers with
    -- a waiting receiver: hand off directly
    | r :: receivers =>
        (.stored c value,
          resume
            { s.setPoint c (.sent rest) with
              ch := { s.ch with buffer := s.ch.buffer ++ [value], receivers := receivers } }
            r)
    | [] =>
        if s.ch.capacity = 0 ∨ s.ch.buffer.length < s.ch.capacity then
          (.stored c value,
            { s.setPoint c (.sent rest) with
              ch := { s.ch with buffer := s.ch.buffer ++ [value] } })
        else
          (.suspended c,
            yield { s with ch := { s.ch with senders := s.ch.senders ++ [c] } } c
              (.store value rest))

/-- `Channel:recv()`, up to its yield or to its return, with `count` rounds to go. -/
def recv (s : Lua α) (c : Co) (count : ℕ) : LuaEvent α × Lua α :=
  match s.ch.buffer with
  | value :: buffer =>
      match s.ch.senders with
      -- wake a waiting sender
      | p :: senders =>
          (.took c value,
            resume
              { s.setPoint c (.got (some value) count) with
                ch := { s.ch with buffer := buffer, senders := senders } }
              p)
      | [] =>
          (.took c value,
            { s.setPoint c (.got (some value) count) with ch := { s.ch with buffer := buffer } })
  | [] =>
      if s.ch.closed then (.tookNil c, s.setPoint c (.got none count))
      else
        (.suspended c,
          yield { s with ch := { s.ch with receivers := s.ch.receivers ++ [c] } } c
            (.fetch count))

/-- The running coroutine `c` goes on from where it is. -/
def run (s : Lua α) (c : Co) : Option (LuaEvent α × Lua α) :=
  match s.point c with
  | .produce [] => some (.ended c, s.finish c)
  | .produce (value :: rest) => some (s.send c value rest)
  | .store value rest =>
      some (.stored c value,
        { s.setPoint c (.sent rest) with ch := { s.ch with buffer := s.ch.buffer ++ [value] } })
  | .sent rest => some (.sendReturned c, s.setPoint c (.produce rest))
  | .consume 0 => some (.ended c, s.finish c)
  | .consume (count + 1) => some (s.recv c count)
  | .fetch count =>
      match s.ch.buffer with
      | value :: buffer =>
          some (.took c value,
            { s.setPoint c (.got (some value) count) with ch := { s.ch with buffer := buffer } })
      | [] => some (.tookNil c, s.setPoint c (.got none count))
  | .got (some value) count => some (.recvReturned c (some value), s.setPoint c (.consume count))
  -- `if val == nil then break end`
  | .got none _ => some (.recvReturned c none, s.finish c)
  | .dead => none

/-- The one next step, if there is one. -/
def step (s : Lua α) (_ : Unit) : Option (LuaEvent α × Lua α) :=
  match s.stack with
  | c :: _ => s.run c
  | [] =>
      match s.threads with
      | [] => none
      | c :: threads =>
          if (s.point c).isDead then some (.dropped c, { s with threads := threads })
          else some (.resumed c, { s with stack := [c], threads := threads })

/-! ## What a step does -/

/-- What a step does on an open channel.  A constructor for each way of going on. -/
inductive Effect (s : Lua α) : LuaEvent α → Lua α → Prop
  | resumed (c : Co) (threads : List Co) : s.stack = [] → s.threads = c :: threads →
      (s.point c).isDead = false →
      Effect s (.resumed c) { s with stack := [c], threads := threads }
  | dropped (c : Co) (threads : List Co) : s.stack = [] → s.threads = c :: threads →
      (s.point c).isDead = true → Effect s (.dropped c) { s with threads := threads }
  | produced (c : Co) (stack : List Co) : s.stack = c :: stack → s.point c = .produce [] →
      Effect s (.ended c) (s.finish c)
  | consumed (c : Co) (stack : List Co) : s.stack = c :: stack → s.point c = .consume 0 →
      Effect s (.ended c) (s.finish c)
  | handOff (c : Co) (stack : List Co) (value : α) (rest : List α) (r : Co)
      (receivers : List Co) : s.stack = c :: stack → s.point c = .produce (value :: rest) →
      s.ch.receivers = r :: receivers →
      Effect s (.stored c value)
        (resume
          { s.setPoint c (.sent rest) with
            ch := { s.ch with buffer := s.ch.buffer ++ [value], receivers := receivers } }
          r)
  | stored (c : Co) (stack : List Co) (value : α) (rest : List α) : s.stack = c :: stack →
      s.point c = .produce (value :: rest) → s.ch.receivers = [] →
      s.ch.capacity = 0 ∨ s.ch.buffer.length < s.ch.capacity →
      Effect s (.stored c value)
        { s.setPoint c (.sent rest) with
          ch := { s.ch with buffer := s.ch.buffer ++ [value] } }
  | sendSuspends (c : Co) (stack : List Co) (value : α) (rest : List α) :
      s.stack = c :: stack → s.point c = .produce (value :: rest) → s.ch.receivers = [] →
      ¬ (s.ch.capacity = 0 ∨ s.ch.buffer.length < s.ch.capacity) →
      Effect s (.suspended c)
        (yield { s with ch := { s.ch with senders := s.ch.senders ++ [c] } } c
          (.store value rest))
  | storedLate (c : Co) (stack : List Co) (value : α) (rest : List α) : s.stack = c :: stack →
      s.point c = .store value rest →
      Effect s (.stored c value)
        { s.setPoint c (.sent rest) with
          ch := { s.ch with buffer := s.ch.buffer ++ [value] } }
  | sendReturned (c : Co) (stack : List Co) (rest : List α) : s.stack = c :: stack →
      s.point c = .sent rest → Effect s (.sendReturned c) (s.setPoint c (.produce rest))
  | wake (c : Co) (stack : List Co) (count : ℕ) (value : α) (buffer : List α) (p : Co)
      (senders : List Co) : s.stack = c :: stack → s.point c = .consume (count + 1) →
      s.ch.buffer = value :: buffer → s.ch.senders = p :: senders →
      Effect s (.took c value)
        (resume
          { s.setPoint c (.got (some value) count) with
            ch := { s.ch with buffer := buffer, senders := senders } }
          p)
  | took (c : Co) (stack : List Co) (count : ℕ) (value : α) (buffer : List α) :
      s.stack = c :: stack → s.point c = .consume (count + 1) → s.ch.buffer = value :: buffer →
      s.ch.senders = [] →
      Effect s (.took c value)
        { s.setPoint c (.got (some value) count) with ch := { s.ch with buffer := buffer } }
  | recvSuspends (c : Co) (stack : List Co) (count : ℕ) : s.stack = c :: stack →
      s.point c = .consume (count + 1) → s.ch.buffer = [] →
      Effect s (.suspended c)
        (yield { s with ch := { s.ch with receivers := s.ch.receivers ++ [c] } } c (.fetch count))
  | fetched (c : Co) (stack : List Co) (count : ℕ) (value : α) (buffer : List α) :
      s.stack = c :: stack → s.point c = .fetch count → s.ch.buffer = value :: buffer →
      Effect s (.took c value)
        { s.setPoint c (.got (some value) count) with ch := { s.ch with buffer := buffer } }
  | fetchedNil (c : Co) (stack : List Co) (count : ℕ) : s.stack = c :: stack →
      s.point c = .fetch count → s.ch.buffer = [] →
      Effect s (.tookNil c) (s.setPoint c (.got none count))
  | recvReturned (c : Co) (stack : List Co) (value : α) (count : ℕ) : s.stack = c :: stack →
      s.point c = .got (some value) count →
      Effect s (.recvReturned c (some value)) (s.setPoint c (.consume count))
  | broke (c : Co) (stack : List Co) (count : ℕ) : s.stack = c :: stack →
      s.point c = .got none count → Effect s (.recvReturned c none) (s.finish c)

variable {s s' : Lua α} {e : LuaEvent α}

/-- What `send` does, up to its first `coroutine.yield`. -/
theorem effect_send {c : Co} {stack : List Co} {value : α} {rest : List α}
    (hopen : s.ch.closed = false) (hstack : s.stack = c :: stack)
    (hpoint : s.point c = .produce (value :: rest)) (h : s.send c value rest = (e, s')) :
    Effect s e s' := by
  rw [send, if_neg (by rw [hopen]; exact Bool.false_ne_true)] at h
  cases hreceivers : s.ch.receivers with
  | cons r receivers =>
      rw [hreceivers] at h
      cases h
      exact .handOff c stack value rest r receivers hstack hpoint hreceivers
  | nil =>
      rw [hreceivers] at h
      dsimp only at h
      split_ifs at h with hroom
      · cases h
        exact .stored c stack value rest hstack hpoint hreceivers hroom
      · cases h
        exact .sendSuspends c stack value rest hstack hpoint hreceivers hroom

/-- What `recv` does, up to its first `coroutine.yield`. -/
theorem effect_recv {c : Co} {stack : List Co} {count : ℕ} (hopen : s.ch.closed = false)
    (hstack : s.stack = c :: stack) (hpoint : s.point c = .consume (count + 1))
    (h : s.recv c count = (e, s')) : Effect s e s' := by
  rw [recv] at h
  split at h
  · next value buffer hbuffer =>
    split at h
    · next p senders hsenders =>
      cases h
      exact .wake c stack count value buffer p senders hstack hpoint hbuffer hsenders
    · next hsenders =>
      cases h
      exact .took c stack count value buffer hstack hpoint hbuffer hsenders
  · next hbuffer =>
    rw [if_neg (by rw [hopen]; exact Bool.false_ne_true)] at h
    cases h
    exact .recvSuspends c stack count hstack hpoint hbuffer

/-- What the running coroutine does. -/
theorem effect_run {c : Co} {stack : List Co} (hopen : s.ch.closed = false)
    (hstack : s.stack = c :: stack) (h : s.run c = some (e, s')) : Effect s e s' := by
  rw [run] at h
  cases hpoint : s.point c with
  | produce values =>
      cases values with
      | nil =>
          rw [hpoint] at h
          cases h
          exact .produced c stack hstack hpoint
      | cons value rest =>
          rw [hpoint] at h
          exact effect_send hopen hstack hpoint (Option.some.inj h)
  | store value rest =>
      rw [hpoint] at h
      cases h
      exact .storedLate c stack value rest hstack hpoint
  | sent rest =>
      rw [hpoint] at h
      cases h
      exact .sendReturned c stack rest hstack hpoint
  | consume count =>
      cases count with
      | zero =>
          rw [hpoint] at h
          cases h
          exact .consumed c stack hstack hpoint
      | succ count =>
          rw [hpoint] at h
          exact effect_recv hopen hstack hpoint (Option.some.inj h)
  | fetch count =>
      rw [hpoint] at h
      dsimp only at h
      split at h
      · next value buffer hbuffer =>
        cases h
        exact .fetched c stack count value buffer hstack hpoint hbuffer
      · next hbuffer =>
        cases h
        exact .fetchedNil c stack count hstack hpoint hbuffer
  | got item count =>
      cases item with
      | some value =>
          rw [hpoint] at h
          cases h
          exact .recvReturned c stack value count hstack hpoint
      | none =>
          rw [hpoint] at h
          cases h
          exact .broke c stack count hstack hpoint
  | dead =>
      rw [hpoint] at h
      cases h

/-- What a step does, on a channel that nobody closes. -/
theorem effect_step {a : Unit} (hopen : s.ch.closed = false) (h : s.step a = some (e, s')) :
    Effect s e s' := by
  rw [step] at h
  split at h
  · next c stack hstack => exact effect_run hopen hstack h
  · next hstack =>
    split at h
    · cases h
    · next c threads hthreads =>
      split_ifs at h with hdead
      · cases h
        exact .dropped c threads hstack hthreads hdead
      · cases h
        exact .resumed c threads hstack hthreads (Bool.eq_false_iff.mpr hdead)

/-- Resuming a coroutine is nothing to the channel. -/
@[simp] theorem ch_resume (s : Lua α) (c : Co) : (s.resume c).ch = s.ch := by
  rw [resume]
  split_ifs <;> rfl

/-- Nor does it move a coroutine. -/
@[simp] theorem point_resume (s : Lua α) (c : Co) : (s.resume c).point = s.point := by
  rw [resume]
  split_ifs <;> rfl

/-- Nor does it change the list of `scheduler`. -/
@[simp] theorem threads_resume (s : Lua α) (c : Co) : (s.resume c).threads = s.threads := by
  rw [resume]
  split_ifs <;> rfl

/-- `closed` and `capacity` stay as they are. -/
theorem Effect.fields_eq (h : Effect s e s') :
    s'.ch.closed = s.ch.closed ∧ s'.ch.capacity = s.ch.capacity := by
  cases h <;> simp [setPoint, yield, finish]

/-- A step puts a value at the end of the buffer, takes one from its front, or leaves it. -/
theorem Effect.balanced (h : Effect s e s') :
    Fifo.Balanced e.put e.take s.ch.buffer s'.ch.buffer := by
  cases h with
  | handOff c stack value rest r receivers _ _ _ =>
      rw [ch_resume]
      exact .put value _
  | wake c stack count value buffer p senders _ _ hbuffer _ =>
      rw [ch_resume, hbuffer]
      exact .take value buffer
  | stored c stack value rest _ _ _ _ => exact .put value _
  | storedLate c stack value rest _ _ => exact .put value _
  | took c stack count value buffer _ _ hbuffer _ =>
      rw [hbuffer]
      exact .take value buffer
  | fetched c stack count value buffer _ _ hbuffer =>
      rw [hbuffer]
      exact .take value buffer
  | resumed | dropped | produced | consumed | sendSuspends | sendReturned | recvSuspends
  | fetchedNil | recvReturned | broke => exact .unchanged _

/-! ## What a step does to a coroutine -/

/-- A coroutine goes on from one point to another. -/
inductive Moves : Point α → LuaEvent α → Point α → Prop
  | resumed (p : Point α) (c : Co) : Moves p (.resumed c) p
  | dropped (p : Point α) (c : Co) : Moves p (.dropped c) p
  | produced (c : Co) : Moves (.produce []) (.ended c) .dead
  | consumed (c : Co) : Moves (.consume 0) (.ended c) .dead
  | stored (c : Co) (value : α) (rest : List α) :
      Moves (.produce (value :: rest)) (.stored c value) (.sent rest)
  | sendSuspends (c : Co) (value : α) (rest : List α) :
      Moves (.produce (value :: rest)) (.suspended c) (.store value rest)
  | storedLate (c : Co) (value : α) (rest : List α) :
      Moves (.store value rest) (.stored c value) (.sent rest)
  | sendReturned (c : Co) (rest : List α) : Moves (.sent rest) (.sendReturned c) (.produce rest)
  | took (c : Co) (value : α) (count : ℕ) :
      Moves (.consume (count + 1)) (.took c value) (.got (some value) count)
  | recvSuspends (c : Co) (count : ℕ) :
      Moves (.consume (count + 1)) (.suspended c) (.fetch count)
  | fetched (c : Co) (value : α) (count : ℕ) :
      Moves (.fetch count) (.took c value) (.got (some value) count)
  | fetchedNil (c : Co) (count : ℕ) : Moves (.fetch count) (.tookNil c) (.got none count)
  | recvReturned (c : Co) (value : α) (count : ℕ) :
      Moves (.got (some value) count) (.recvReturned c (some value)) (.consume count)
  | broke (c : Co) (count : ℕ) : Moves (.got none count) (.recvReturned c none) .dead

/-- One coroutine moves in a step; the others stay where they are. -/
theorem Effect.moves (h : Effect s e s') :
    ∃ c p, s'.point = Function.update s.point c p ∧ Moves (s.point c) e p := by
  cases h with
  | resumed c threads _ _ _ => exact ⟨c, _, (Function.update_eq_self c _).symm, .resumed _ c⟩
  | dropped c threads _ _ _ => exact ⟨c, _, (Function.update_eq_self c _).symm, .dropped _ c⟩
  | produced c stack _ hpoint => exact ⟨c, _, rfl, hpoint ▸ .produced c⟩
  | consumed c stack _ hpoint => exact ⟨c, _, rfl, hpoint ▸ .consumed c⟩
  | handOff c stack value rest r receivers _ hpoint _ =>
      exact ⟨c, _, point_resume _ _, hpoint ▸ .stored c value rest⟩
  | stored c stack value rest _ hpoint _ _ => exact ⟨c, _, rfl, hpoint ▸ .stored c value rest⟩
  | sendSuspends c stack value rest _ hpoint _ _ =>
      exact ⟨c, _, rfl, hpoint ▸ .sendSuspends c value rest⟩
  | storedLate c stack value rest _ hpoint => exact ⟨c, _, rfl, hpoint ▸ .storedLate c value rest⟩
  | sendReturned c stack rest _ hpoint => exact ⟨c, _, rfl, hpoint ▸ .sendReturned c rest⟩
  | wake c stack count value buffer p senders _ hpoint _ _ =>
      exact ⟨c, _, point_resume _ _, hpoint ▸ .took c value count⟩
  | took c stack count value buffer _ hpoint _ _ =>
      exact ⟨c, _, rfl, hpoint ▸ .took c value count⟩
  | recvSuspends c stack count _ hpoint _ => exact ⟨c, _, rfl, hpoint ▸ .recvSuspends c count⟩
  | fetched c stack count value buffer _ hpoint _ =>
      exact ⟨c, _, rfl, hpoint ▸ .fetched c value count⟩
  | fetchedNil c stack count _ hpoint _ => exact ⟨c, _, rfl, hpoint ▸ .fetchedNil c count⟩
  | recvReturned c stack value count _ hpoint =>
      exact ⟨c, _, rfl, hpoint ▸ .recvReturned c value count⟩
  | broke c stack count _ hpoint => exact ⟨c, _, rfl, hpoint ▸ .broke c count⟩

end Lua

/-! ## Accounting -/

namespace Point

variable {α : Type*}

/-- How many values the coroutine has still to put into the buffer. -/
def values : Point α → ℕ
  | produce values => values.length
  | store _ rest => rest.length + 1
  | sent rest => rest.length
  | _ => 0

/-- How many values it has still to take out of the buffer. -/
def counts : Point α → ℕ
  | consume count => count
  | fetch count => count + 1
  | got _ count => count
  | _ => 0

/-- Is the coroutine in a `send` that has stored its value? -/
def pending : Point α → ℕ
  | sent _ => 1
  | _ => 0

/-- A bound on the steps it has still to take. -/
def weight : Point α → ℕ
  | produce values => 4 * values.length + 1
  | store _ rest => 4 * rest.length + 3
  | sent rest => 4 * rest.length + 2
  | consume count => 4 * count + 1
  | fetch count => 4 * count + 3
  | got _ count => 4 * count + 2
  | dead => 0

end Point

namespace Lua

variable {α : Type*} {s s' : Lua α} {e : LuaEvent α} {p p' : Point α}

/-- A coroutine has one value less to send for each one that it puts into the buffer. -/
theorem Moves.values_eq (h : Moves p e p') : p.values = p'.values + e.put.toList.length := by
  cases h <;> rfl

/-- A coroutine has one value less to receive for each one that it takes. -/
theorem Moves.counts_eq (h : Moves p e p') (he : e.isNil = false) :
    p.counts = p'.counts + e.take.toList.length := by
  cases h <;> first | rfl | cases he

/-- A coroutine that has stored its value is in a `send` until that returns. -/
theorem Moves.pending_eq (h : Moves p e p') :
    p.pending + e.put.toList.length = p'.pending + e.sendReturns.toNat := by
  cases h <;> rfl

/-- A move takes its relief off the weight of the coroutine. -/
theorem Moves.weight_le (h : Moves p e p') : p'.weight + e.relief ≤ p.weight := by
  cases h <;> simp only [Point.weight, LuaEvent.relief, List.length_cons, List.length_nil] <;> omega

/-- A dead coroutine stays dead. -/
theorem Moves.eq_dead (h : Moves p e p') (hp : p = .dead) : p' = .dead := by
  subst hp
  cases h <;> rfl

/-- The list of `scheduler` gets shorter, but for what the move has been relieved of. -/
theorem Effect.threads_length_le (h : Effect s e s') :
    s'.threads.length + 1 ≤ s.threads.length + e.relief := by
  cases h with
  | resumed c threads _ hthreads _ =>
      rw [hthreads]
      exact Nat.le_refl _
  | dropped c threads _ hthreads _ =>
      rw [hthreads]
      exact Nat.le_refl _
  | sendSuspends | recvSuspends =>
      rw [yield]
      split_ifs
      · rw [List.length_append]
        exact Nat.le_refl _
      · exact Nat.le_succ _
  | handOff | wake =>
      rw [threads_resume]
      exact Nat.le_refl _
  | produced | consumed | stored | storedLate | sendReturned | took | fetched | fetchedNil
  | recvReturned | broke => exact Nat.le_refl _

/-- The sum of `f` over the coroutines. -/
def total (n : ℕ) (f : Point α → ℕ) (s : Lua α) : ℕ := ∑ c ∈ Finset.range n, f (s.point c)

/-- When one coroutine moves, the sum changes by what it changes. -/
theorem total_update {n : ℕ} (f : Point α → ℕ) {c : Co} (hc : c < n ∨ f p = f (s.point c))
    (hpoint : s'.point = Function.update s.point c p) :
    s'.total n f + f (s.point c) = s.total n f + f p := by
  rw [total, total, hpoint]
  by_cases hlt : c < n
  · have hmem := Finset.mem_range.mpr hlt
    rw [← Finset.add_sum_erase _ _ hmem, ← Finset.add_sum_erase _ _ hmem, Function.update_self]
    have hrest : ∑ d ∈ (Finset.range n).erase c, f (Function.update s.point c p d) =
        ∑ d ∈ (Finset.range n).erase c, f (s.point d) := by
      refine Finset.sum_congr rfl fun d hd => ?_
      rw [Function.update_of_ne (Finset.ne_of_mem_erase hd)]
    rw [hrest]
    omega
  · have hsame : ∑ d ∈ Finset.range n, f (Function.update s.point c p d) =
        ∑ d ∈ Finset.range n, f (s.point d) := by
      refine Finset.sum_congr rfl fun d hd => ?_
      rw [Function.update_of_ne]
      rintro rfl
      exact hlt (Finset.mem_range.mp hd)
    rw [hsame, hc.resolve_left hlt]

/-! ## Runs -/

/-- What never changes: the channel is open, its capacity, and which coroutines there are. -/
structure Fixed (capacity n : ℕ) (s : Lua α) : Prop where
  isOpen : s.ch.closed = false
  capacity_eq : s.ch.capacity = capacity
  outside : ∀ c, n ≤ c → s.point c = .dead

/-- At the start nobody but the coroutines is there. -/
theorem Fixed.start (capacity : ℕ) (cos : List (Body α)) :
    Fixed capacity cos.length (start capacity cos) := by
  refine ⟨rfl, rfl, fun c hc => ?_⟩
  show (cos[c]?.map Body.point).getD .dead = .dead
  rw [List.getElem?_eq_none hc]
  rfl

variable {capacity n : ℕ}

/-- A step leaves that alone. -/
theorem Fixed.effect (hf : Fixed capacity n s) (h : Effect s e s') : Fixed capacity n s' := by
  obtain ⟨hclosed, hcapacity⟩ := h.fields_eq
  obtain ⟨c, p, hpoint, hmoves⟩ := h.moves
  refine ⟨hclosed.trans hf.isOpen, hcapacity.trans hf.capacity_eq, fun d hd => ?_⟩
  rw [hpoint]
  by_cases hdc : d = c
  · rw [hdc] at hd ⊢
    rw [Function.update_self]
    exact hmoves.eq_dead (hf.outside c hd)
  · rw [Function.update_of_ne hdc]
    exact hf.outside d hd

/-- A step changes the sum of `f` by what it changes for the coroutine that moves. -/
theorem Fixed.exists_total (hf : Fixed capacity n s) (h : Effect s e s') :
    ∃ p p', Moves p e p' ∧ ∀ f, s'.total n f + f p = s.total n f + f p' := by
  obtain ⟨c, p, hpoint, hmoves⟩ := h.moves
  refine ⟨_, _, hmoves, fun f => total_update f ?_ hpoint⟩
  by_cases hc : c < n
  · exact Or.inl hc
  · have hdead := hf.outside c (Nat.le_of_not_lt hc)
    rw [hdead, hmoves.eq_dead hdead]
    exact Or.inr rfl

/-- Every step lowers the weight of the coroutines and of `threads`. -/
theorem Fixed.lowers (hf : Fixed capacity n s) {a : Unit} (hs : s.step a = some (e, s')) :
    Fixed capacity n s' ∧
      s'.total n Point.weight + s'.threads.length < s.total n Point.weight + s.threads.length := by
  have h := effect_step hf.isOpen hs
  refine ⟨hf.effect h, ?_⟩
  obtain ⟨p, p', hmoves, htotal⟩ := hf.exists_total h
  have hweight := hmoves.weight_le
  have hthreads := h.threads_length_le
  have := htotal Point.weight
  omega

/-- So it is in every run. -/
theorem run_fixed {ok : Lua α → Unit → Prop} {cos : List (Body α)} {h : List (LuaEvent α)}
    (hr : Run step ok (start capacity cos) h s) : Fixed capacity cos.length s :=
  Run.invariant (fun _ s => Fixed capacity cos.length s) (.start capacity cos)
    (fun _ _ _ _ _ hf _ hs => hf.effect (effect_step hf.isOpen hs)) hr

/-- Values come out of the buffer in the order they went in. -/
theorem run_fifo {ok : Lua α → Unit → Prop} {cos : List (Body α)} {h : List (LuaEvent α)}
    (hr : Run step ok (start capacity cos) h s) :
    h.filterMap LuaEvent.take ++ s.ch.buffer = h.filterMap LuaEvent.put := by
  have hfifo := hr.fifo LuaEvent.put LuaEvent.take (fun s => s.ch.buffer)
    fun _ _ _ _ _ hr _ hs => (effect_step (run_fixed hr).isOpen hs).balanced
  exact hfifo.symm

/-- At the start there is in the first `k` coroutines what they are given. -/
theorem total_start (f : Point α → ℕ) (hf : f .dead = 0) (capacity : ℕ) (cos : List (Body α))
    (k : ℕ) :
    (start capacity cos).total k f = ((cos.take k).map fun b => f b.point).sum := by
  induction k with
  | zero => simp [total]
  | succ k ih =>
      rw [total] at ih ⊢
      rw [Finset.sum_range_succ, ih, List.take_add_one, List.map_append, List.sum_append]
      congr 1
      show f ((cos[k]?.map Body.point).getD .dead) = _
      cases cos[k]? with
      | none => simp [hf]
      | some b => simp

/-- The books of a run: what went into the buffer and what came out, against what the
coroutines have still to do. -/
structure Books (cos : List (Body α)) (h : List (LuaEvent α)) (s : Lua α) : Prop where
  values : (h.filterMap LuaEvent.put).length + s.total cos.length Point.values =
    (cos.map fun b => b.point.values).sum
  counts : (∀ e ∈ h, e.isNil = false) →
    (h.filterMap LuaEvent.take).length + s.total cos.length Point.counts =
      (cos.map fun b => b.point.counts).sum
  pending : (h.filterMap LuaEvent.put).length =
    h.countP LuaEvent.sendReturns + s.total cos.length Point.pending

/-- One event more. -/
theorem length_filterMap_snoc {β : Type*} (f : LuaEvent α → Option β) (h : List (LuaEvent α))
    (e : LuaEvent α) :
    ((h ++ [e]).filterMap f).length = (h.filterMap f).length + (f e).toList.length := by
  rw [List.filterMap_append, List.length_append]
  cases hf : f e <;> simp [hf]

/-- One event more, counted. -/
theorem countP_snoc (f : LuaEvent α → Bool) (h : List (LuaEvent α)) (e : LuaEvent α) :
    (h ++ [e]).countP f = h.countP f + (f e).toNat := by
  rw [List.countP_append]
  cases hf : f e <;> simp [hf]

/-- At the start nothing has been put and nothing taken. -/
theorem Books.start (capacity : ℕ) (cos : List (Body α)) :
    Books cos [] (start capacity cos) := by
  have htotal : ∀ f : Point α → ℕ, f .dead = 0 →
      (Lua.start capacity cos).total cos.length f = (cos.map fun b => f b.point).sum := by
    intro f hf
    rw [total_start f hf, List.take_length]
  refine ⟨?_, fun _ => ?_, ?_⟩
  · rw [htotal _ rfl]
    exact Nat.zero_add _
  · rw [htotal _ rfl]
    exact Nat.zero_add _
  · -- nothing is pending at the start
    have hzero : ∀ x ∈ cos.map fun b => b.point.pending, x = 0 := by
      intro x hx
      obtain ⟨b, -, rfl⟩ := List.mem_map.mp hx
      cases b <;> rfl
    rw [htotal _ rfl, List.sum_eq_zero hzero]
    rfl

/-- **The books.** They are kept in every run. -/
theorem run_books {ok : Lua α → Unit → Prop} {cos : List (Body α)} {h : List (LuaEvent α)}
    (hr : Run step ok (start capacity cos) h s) : Books cos h s := by
  induction hr with
  | nil => exact .start capacity cos
  | @snoc h s s' a e hr _ hs ih =>
      have hfixed := run_fixed hr
      obtain ⟨p, p', hmoves, htotal⟩ := hfixed.exists_total (effect_step hfixed.isOpen hs)
      refine ⟨?_, fun hnil => ?_, ?_⟩
      · have hvalues := ih.values
        have hp := hmoves.values_eq
        have := htotal Point.values
        rw [length_filterMap_snoc]
        omega
      · have hcounts := ih.counts fun x hx => hnil x (List.mem_append_left _ hx)
        have hp := hmoves.counts_eq (hnil e (List.mem_append_right _ (List.mem_singleton_self e)))
        have := htotal Point.counts
        rw [length_filterMap_snoc]
        omega
      · have hpending := ih.pending
        have hp := hmoves.pending_eq
        have := htotal Point.pending
        rw [length_filterMap_snoc, countP_snoc]
        omega

end Lua

end Csp

/-
# Relays

A relay serves many lines at once.  On each line it receives what a peer offers, queues
its image under a function `f`, and sends the queue back in pieces of any size.  A line
is `Sound` if nothing was lost, duplicated or invented on it: while it is open, what was
sent followed by the queue is the image of what was received; afterwards, what was sent
is a prefix of that image.

* `Move` : one step of a relay, on one line;
* `Moves.sound` : any number of steps keeps all lines sound.
-/
import Mathlib.Data.List.Basic
import Mathlib.Logic.Function.Basic
import Mathlib.Logic.Relation

namespace Relay

/-- One line of a relay. -/
structure Line (α β : Type*) where
  /-- offered by the peer, not received yet -/
  unread : List α
  received : List α
  queued : List β
  sent : List β
  isOpen : Bool

namespace Line

variable {α β : Type*}

/-- A line just opened, on which the peer has offered `items` already. -/
def opened (items : List α) : Line α β := ⟨items, [], [], [], true⟩

/-- The peer offers `items`. -/
def offer (l : Line α β) (items : List α) : Line α β := { l with unread := l.unread ++ items }

/-- The relay receives up to `k` items and queues their images. -/
def receive (f : α → β) (k : ℕ) (l : Line α β) : Line α β :=
  { l with
    unread := l.unread.drop k
    received := l.received ++ l.unread.take k
    queued := l.queued ++ (l.unread.take k).map f }

/-- The relay sends up to `n` items of the queue. -/
def send (n : ℕ) (l : Line α β) : Line α β :=
  { l with
    queued := l.queued.drop n
    sent := l.sent ++ l.queued.take n }

/-- The relay closes the line and drops the queue. -/
def close (l : Line α β) : Line α β := { l with queued := [], isOpen := false }

/-- Nothing was lost, duplicated or invented on the line. -/
structure Sound (f : α → β) (l : Line α β) : Prop where
  queued_eq : l.isOpen = true → l.sent ++ l.queued = l.received.map f
  sent_prefix : l.sent <+: l.received.map f

namespace Sound

variable {f : α → β} {l : Line α β}

/-- A line that has just been opened. -/
theorem opened (f : α → β) (items : List α) : (Line.opened items).Sound f :=
  ⟨fun _ => rfl, List.prefix_rfl⟩

/-- More is offered, which is still unread. -/
theorem offer (h : l.Sound f) (items : List α) : (l.offer items).Sound f :=
  ⟨h.queued_eq, h.sent_prefix⟩

/-- What is received has been offered, and what it becomes is put into the queue. -/
theorem receive (h : l.Sound f) (k : ℕ) : (l.receive f k).Sound f := by
  constructor
  · intro ho
    show l.sent ++ (l.queued ++ (l.unread.take k).map f) = (l.received ++ l.unread.take k).map f
    rw [← List.append_assoc, h.queued_eq ho, List.map_append]
  · show l.sent <+: (l.received ++ l.unread.take k).map f
    rw [List.map_append]
    exact h.sent_prefix.trans (List.prefix_append _ _)

/-- What is sent comes from the front of the queue. -/
theorem send (h : l.Sound f) (ho : l.isOpen = true) (n : ℕ) : (l.send n).Sound f := by
  have hsplit : l.sent ++ l.queued.take n ++ l.queued.drop n = l.received.map f := by
    rw [List.append_assoc, List.take_append_drop]
    exact h.queued_eq ho
  exact ⟨fun _ => hsplit, ⟨_, hsplit⟩⟩

/-- A closed line keeps what it has sent. -/
theorem close (h : l.Sound f) : l.close.Sound f :=
  ⟨fun ho => absurd ho Bool.false_ne_true, h.sent_prefix⟩

/-- What was sent is a prefix of the image of all the peer has offered. -/
theorem sent_prefix_offered (h : l.Sound f) : l.sent <+: (l.received ++ l.unread).map f := by
  rw [List.map_append]
  exact h.sent_prefix.trans (List.prefix_append _ _)

end Sound

end Line

/-! ## Steps -/

variable {κ α β : Type*} [DecidableEq κ]

/-- One step of a relay with lines `κ`. -/
inductive Move (f : α → β) (ls : κ → Line α β) : (κ → Line α β) → Prop
  | accept (c : κ) (items : List α) :
      (ls c).isOpen = false → Move f ls (Function.update ls c (.opened items))
  | offer (c : κ) (items : List α) : Move f ls (Function.update ls c ((ls c).offer items))
  | receive (c : κ) (k : ℕ) : Move f ls (Function.update ls c ((ls c).receive f k))
  | send (c : κ) (n : ℕ) :
      (ls c).isOpen = true → Move f ls (Function.update ls c ((ls c).send n))
  | close (c : κ) : Move f ls (Function.update ls c (ls c).close)

/-- Any number of steps. -/
def Moves (f : α → β) : (κ → Line α β) → (κ → Line α β) → Prop :=
  Relation.ReflTransGen (Move f)

/-- A move of one line keeps all of them sound. -/
theorem Move.sound {f : α → β} {ls ls' : κ → Line α β} (hm : Move f ls ls')
    (h : ∀ c, (ls c).Sound f) : ∀ c, (ls' c).Sound f := by
  have hupdate : ∀ (c : κ) (l : Line α β), l.Sound f →
      ∀ d, (Function.update ls c l d).Sound f := by
    intro c l hl d
    by_cases hd : d = c
    · subst hd
      rw [Function.update_self]
      exact hl
    · rw [Function.update_of_ne hd]
      exact h d
  cases hm with
  | accept c items _ => exact hupdate c _ (Line.Sound.opened f items)
  | offer c items => exact hupdate c _ ((h c).offer items)
  | receive c k => exact hupdate c _ ((h c).receive k)
  | send c n ho => exact hupdate c _ ((h c).send ho n)
  | close c => exact hupdate c _ (h c).close

namespace Moves

variable {f : α → β} {ls ls' ls'' : κ → Line α β}

theorem refl (f : α → β) (ls : κ → Line α β) : Moves f ls ls := Relation.ReflTransGen.refl

theorem single (hm : Move f ls ls') : Moves f ls ls' := Relation.ReflTransGen.single hm

theorem trans (h₁ : Moves f ls ls') (h₂ : Moves f ls' ls'') : Moves f ls ls'' :=
  Relation.ReflTransGen.trans h₁ h₂

/-- **Integrity.**  A relay keeps its lines sound. -/
theorem sound (hm : Moves f ls ls') (h : ∀ c, (ls c).Sound f) : ∀ c, (ls' c).Sound f := by
  induction hm with
  | refl => exact h
  | tail _ hstep ih => exact hstep.sound ih

end Moves

end Relay

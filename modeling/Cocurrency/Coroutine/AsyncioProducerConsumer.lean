/-
# Producers and consumers (`python/stackless_coroutine/asyncio_producer_consumer.py`)

A producer sleeps and puts an item into the queue, for each of its items; a consumer gets an item,
appends it to `results`, sleeps and calls `task_done`, as often as it has been told to.  A coroutine
goes on without a break until it sleeps, or waits for room in the queue or for an item; which one
goes on next is open.

* `Ok` : what holds in every state;
* `asyncio_correct` : nothing is lost or doubled, every run ends, and where nobody can go
  on the coroutines have returned just if there are items enough for the consumers, and no more left
  than the queue holds.
-/
import Cocurrency.Lib.Halting
import Cocurrency.Lib.MonitorHalts
import Mathlib.Algebra.BigOperators.Fin
import Mathlib.Algebra.Order.BigOperators.Group.Multiset
import Mathlib.Data.Fintype.BigOperators
import Mathlib.Data.Multiset.Bind

namespace Coroutine

namespace Asyncio

/-! ## The program -/

/-- The tasks that `main` gathers. -/
inductive Task (m n : ℕ) where
  | producer (p : Fin m)
  | consumer (c : Fin n)
  deriving DecidableEq

/-- Where a task in `producer` is. -/
inductive Producer (α : Type*) where
  /-- In `asyncio.sleep`, before `item`. -/
  | sleeping (item : α) (rest : List α)
  /-- In `queue.put(item)`. -/
  | putting (item : α) (rest : List α)
  | returned

/-- Where a task in `consumer` is. -/
inductive Consumer (α : Type*) where
  /-- In `queue.get()`, for the first of `more + 1` items. -/
  | getting (more : ℕ)
  | sleeping (item : α) (more : ℕ)
  | returned
  /-- `task_done` has raised a `ValueError`. -/
  | failed

/-- The queue, the list of results and the tasks. -/
structure State (m n : ℕ) (α : Type*) where
  queue : List α
  /-- The items that `task_done` has not been called for. -/
  unfinished : ℕ
  results : List α
  producer : Fin m → Producer α
  consumer : Fin n → Consumer α

/-- What a step shows. -/
inductive Event (m n : ℕ) (α : Type*) where
  | slept (p : Fin m)
  /-- What is printed includes `queue.qsize()`. -/
  | produced (p : Fin m) (item : α) (qsize : ℕ)
  | got (c : Fin n) (item : α)
  | consumed (c : Fin n) (item : α) (qsize : ℕ)
  | failed (c : Fin n)

/-- The head of `for item in items`. -/
def Producer.loop {α : Type*} : List α → Producer α
  | [] => .returned
  | item :: rest => .sleeping item rest

/-- The head of `for _ in range(count)`. -/
def Consumer.loop {α : Type*} : ℕ → Consumer α
  | 0 => .returned
  | more + 1 => .getting more

variable {m n : ℕ} {α : Type*}

/-- At first the queue is empty and every task is at the beginning of its loop. -/
def start (items : Fin m → List α) (counts : Fin n → ℕ) : State m n α where
  queue := []
  unfinished := 0
  results := []
  producer p := .loop (items p)
  consumer c := .loop (counts c)

namespace State

/-- The producer `p` goes on to `x`. -/
def setProducer (s : State m n α) (p : Fin m) (x : Producer α) : State m n α :=
  { s with producer := Function.update s.producer p x }

/-- The consumer `c` goes on to `x`. -/
def setConsumer (s : State m n α) (c : Fin n) (x : Consumer α) : State m n α :=
  { s with consumer := Function.update s.consumer c x }

/-- `queue.full()`; a queue whose `maxsize` is not positive is never full. -/
def full (maxsize : ℤ) (s : State m n α) : Prop := 0 < maxsize ∧ maxsize ≤ s.queue.length

instance (maxsize : ℤ) (s : State m n α) : Decidable (s.full maxsize) :=
  inferInstanceAs (Decidable (_ ∧ _))

end State

/-- The next step of a producer, unless it waits for room or has returned. -/
def stepProducer (maxsize : ℤ) (s : State m n α) (p : Fin m) :
    Option (Event m n α × State m n α) :=
  match s.producer p with
  | .sleeping item rest => some (.slept p, s.setProducer p (.putting item rest))
  | .putting item rest =>
      if s.full maxsize then none
      else
        some (.produced p item (s.queue.length + 1),
          { s with queue := s.queue ++ [item], unfinished := s.unfinished + 1 }.setProducer p
            (.loop rest))
  | .returned => none

/-- The next step of a consumer, unless it waits for an item or has ended. -/
def stepConsumer (s : State m n α) (c : Fin n) : Option (Event m n α × State m n α) :=
  match s.consumer c with
  | .getting more =>
      match s.queue with
      | [] => none
      | item :: queue =>
          some (.got c item,
            { s with queue := queue, results := s.results ++ [item] }.setConsumer c
              (.sleeping item more))
  | .sleeping item more =>
      match s.unfinished with
      | 0 => some (.failed c, s.setConsumer c .failed)
      | unfinished + 1 =>
          some (.consumed c item s.queue.length,
            { s with unfinished := unfinished }.setConsumer c (.loop more))
  | .returned | .failed => none

/-- The next step of a coroutine, unless it waits or has returned. -/
def step (maxsize : ℤ) (s : State m n α) : Task m n → Option (Event m n α × State m n α)
  | .producer p => stepProducer maxsize s p
  | .consumer c => stepConsumer s c

/-! ## What a step does -/

/-- What the steps do, one by one. -/
inductive Moves (maxsize : ℤ) (s : State m n α) : Task m n → Event m n α → State m n α → Prop
  | sleeps (p : Fin m) (item : α) (rest : List α) : s.producer p = .sleeping item rest →
      Moves maxsize s (.producer p) (.slept p) (s.setProducer p (.putting item rest))
  | puts (p : Fin m) (item : α) (rest : List α) : s.producer p = .putting item rest →
      ¬ s.full maxsize →
      Moves maxsize s (.producer p) (.produced p item (s.queue.length + 1))
        ({ s with queue := s.queue ++ [item], unfinished := s.unfinished + 1 }.setProducer p
          (.loop rest))
  | gets (c : Fin n) (more : ℕ) (item : α) (queue : List α) : s.consumer c = .getting more →
      s.queue = item :: queue →
      Moves maxsize s (.consumer c) (.got c item)
        ({ s with queue := queue, results := s.results ++ [item] }.setConsumer c
          (.sleeping item more))
  | fails (c : Fin n) (item : α) (more : ℕ) : s.consumer c = .sleeping item more →
      s.unfinished = 0 →
      Moves maxsize s (.consumer c) (.failed c) (s.setConsumer c .failed)
  | finishes (c : Fin n) (item : α) (more unfinished : ℕ) : s.consumer c = .sleeping item more →
      s.unfinished = unfinished + 1 →
      Moves maxsize s (.consumer c) (.consumed c item s.queue.length)
        ({ s with unfinished := unfinished }.setConsumer c (.loop more))

variable {maxsize : ℤ} {s s' : State m n α} {t : Task m n} {e : Event m n α}

/-- A step is one of these moves. -/
theorem moves_step (hs : step maxsize s t = some (e, s')) : Moves maxsize s t e s' := by
  cases t with
  | producer p =>
      rw [step, stepProducer] at hs
      split at hs
      · next item rest hp =>
        cases hs
        exact .sleeps p item rest hp
      · next item rest hp =>
        split at hs
        · cases hs
        · next hfull =>
          cases hs
          exact .puts p item rest hp hfull
      · cases hs
  | consumer c =>
      rw [step, stepConsumer] at hs
      split at hs
      · next more hc =>
        split at hs
        · cases hs
        · next item queue hqueue =>
          cases hs
          exact .gets c more item queue hc hqueue
      · next item more hc =>
        split at hs
        · next hzero =>
          cases hs
          exact .fails c item more hc hzero
        · next unfinished hsucc =>
          cases hs
          exact .finishes c item more unfinished hc hsucc
      · cases hs
      · cases hs

/-! ## What has happened -/

/-- The item that is put into the queue. -/
def Event.put : Event m n α → Option α
  | .produced _ item _ => some item
  | _ => none

/-- The item that is taken out of the queue. -/
def Event.taken : Event m n α → Option α
  | .got _ item => some item
  | _ => none

/-- What producer `p` puts into the queue. -/
def Event.putBy (p : Fin m) : Event m n α → Option α
  | .produced p' item _ => if p' = p then some item else none
  | _ => none

/-- What consumer `c` takes out of the queue. -/
def Event.takenBy (c : Fin n) : Event m n α → Option α
  | .got c' item => if c' = c then some item else none
  | _ => none

variable (h : List (Event m n α))

/-- What has been put into the queue. -/
def produced : List α := h.filterMap Event.put

/-- What has been got from it. -/
def got : List α := h.filterMap Event.taken

/-- All that producer `p` has put into the queue. -/
def producedBy (p : Fin m) : List α := h.filterMap (Event.putBy p)

/-- All that consumer `c` has taken out of it. -/
def gotBy (c : Fin n) : List α := h.filterMap (Event.takenBy c)

/-- What a producer is still to put. -/
def Producer.left : Producer α → List α
  | .sleeping item rest => item :: rest
  | .putting item rest => item :: rest
  | .returned => []

/-- At the beginning of its loop a producer has all its items left. -/
theorem left_producer (items : List α) : (Producer.loop items).left = items := by
  cases items <;> rfl

/-- How many items a consumer is still to get. -/
def Consumer.left : Consumer α → ℕ
  | .getting more => more + 1
  | .sleeping _ more => more
  | _ => 0

/-- At the beginning of its loop a consumer has its whole count left. -/
theorem left_consumer (count : ℕ) : (Consumer.loop count : Consumer α).left = count := by
  cases count <;> rfl

/-- It is to call `task_done`. -/
def Consumer.busy : Consumer α → ℕ
  | .sleeping _ _ => 1
  | _ => 0

/-- At the beginning of its loop a consumer holds no item. -/
theorem busy_loop (count : ℕ) : (Consumer.loop count : Consumer α).busy = 0 := by
  cases count <;> rfl

/-- What holds in every state. -/
structure Ok (maxsize : ℤ) (items : Fin m → List α) (counts : Fin n → ℕ) (s : State m n α) :
    Prop where
  results : s.results = got h
  fifo : produced h = got h ++ s.queue
  producer : ∀ p, producedBy h p ++ (s.producer p).left = items p
  consumer : ∀ c, (gotBy h c).length + (s.consumer c).left = counts c
  size : 0 < maxsize → (s.queue.length : ℤ) ≤ maxsize
  unfinished : s.unfinished = s.queue.length + ∑ c, (s.consumer c).busy
  not_failed : ∀ c, s.consumer c ≠ .failed
  made : (produced h : Multiset α) + ∑ p, ((s.producer p).left : Multiset α) =
    ∑ p, (items p : Multiset α)
  taken : (got h).length + ∑ c, (s.consumer c).left = ∑ c, counts c

variable {h} {items : Fin m → List α} {counts : Fin n → ℕ}

/-! ## What a step keeps -/

/-- One event more. -/
theorem filterMap_snoc {β : Type*} (f : Event m n α → Option β) :
    (h ++ [e]).filterMap f = h.filterMap f ++ (f e).toList := by
  rw [List.filterMap_append]
  cases hf : f e <;> simp [hf]

/-- At first nothing has been put or taken. -/
theorem Ok.start (maxsize : ℤ) (items : Fin m → List α) (counts : Fin n → ℕ) :
    Ok [] maxsize items counts (start items counts) where
  results := rfl
  fifo := rfl
  producer p := left_producer (items p)
  consumer c := (Nat.zero_add _).trans (left_consumer (counts c))
  size hpos := le_of_lt hpos
  unfinished := by
    show 0 = 0 + ∑ c, (Consumer.loop (counts c) : Consumer α).busy
    simp only [busy_loop, Finset.sum_const_zero, Nat.add_zero]
  not_failed c := by
    show Consumer.loop (counts c) ≠ .failed
    cases counts c <;> exact nofun
  made := by
    show _ + ∑ p, ((Producer.loop (items p)).left : Multiset α) = _
    simp only [left_producer]
    exact zero_add _
  taken := by
    show 0 + ∑ c, (Consumer.loop (counts c) : Consumer α).left = _
    simp only [left_consumer, Nat.zero_add]

/-- A producer goes on, and puts what it is no longer to put. -/
theorem Ok.of_producer (hok : Ok h maxsize items counts s) {p : Fin m} {x : Producer α}
    (added : List α) (hput : e.put.toList = added) (htaken : e.taken = none)
    (hputBy : ∀ p', (e.putBy p').toList = if p' = p then added else [])
    (htakenBy : ∀ c, e.takenBy c = none) (hleft : (s.producer p).left = added ++ x.left)
    (hsize : 0 < maxsize → ((s.queue ++ added).length : ℤ) ≤ maxsize) :
    Ok (h ++ [e]) maxsize items counts
      ({ s with
        queue := s.queue ++ added, unfinished := s.unfinished + added.length }.setProducer p
          x) where
  results := by
    rw [got, filterMap_snoc, htaken]
    exact hok.results.trans (List.append_nil _).symm
  fifo := by
    rw [produced, got, filterMap_snoc, filterMap_snoc, htaken, hput]
    show produced h ++ added = got h ++ [] ++ (s.queue ++ added)
    rw [hok.fifo, List.append_nil, List.append_assoc]
  producer p' := by
    rw [producedBy, filterMap_snoc, hputBy]
    by_cases hp : p' = p
    · subst hp
      show _ ++ (Function.update s.producer p' x p').left = _
      rw [if_pos rfl, Function.update_self, List.append_assoc, ← hleft]
      exact hok.producer p'
    · show _ ++ (Function.update s.producer p x p').left = _
      rw [if_neg hp, Function.update_of_ne hp, List.append_nil]
      exact hok.producer p'
  consumer c := by
    rw [gotBy, filterMap_snoc, htakenBy, Option.toList, List.append_nil]
    exact hok.consumer c
  size := hsize
  unfinished := by
    show s.unfinished + _ = (s.queue ++ added).length + _
    rw [hok.unfinished, List.length_append]
    exact Nat.add_right_comm _ _ _
  not_failed := hok.not_failed
  made := by
    have hsum :=
      Monitor.sum_update_add (fun x : Producer α => (x.left : Multiset α)) s.producer p x
    rw [hleft, ← Multiset.coe_add, ← add_assoc] at hsum
    have hcancel := add_right_cancel hsum
    rw [produced, filterMap_snoc, hput, ← Multiset.coe_add, add_assoc,
      add_comm (added : Multiset α)]
    show _ + (∑ u, ((Function.update s.producer p x u).left : Multiset α) + _) = _
    rw [hcancel]
    exact hok.made
  taken := by
    rw [got, filterMap_snoc, htaken, Option.toList, List.append_nil]
    exact hok.taken

/-- A consumer goes on. -/
theorem Ok.of_consumer (hok : Ok h maxsize items counts s) {c : Fin n} {x : Consumer α}
    (added : List α) {queue : List α} {unfinished : ℕ} (hput : e.put = none)
    (htaken : e.taken.toList = added)
    (hputBy : ∀ p, e.putBy p = none)
    (htakenBy : ∀ c', (e.takenBy c').toList = if c' = c then added else [])
    (hqueue : s.queue = added ++ queue)
    (hleft : (s.consumer c).left = added.length + x.left)
    (hbusy : s.unfinished + x.busy = unfinished + added.length + (s.consumer c).busy)
    (hfailed : x ≠ .failed) :
    Ok (h ++ [e]) maxsize items counts
      ({ s with
        queue := queue, unfinished := unfinished, results := s.results ++ added }.setConsumer c
          x) where
  results := by
    rw [got, filterMap_snoc, htaken]
    exact congrArg (· ++ added) hok.results
  fifo := by
    rw [produced, got, filterMap_snoc, filterMap_snoc, hput, htaken, Option.toList, List.append_nil,
      List.append_assoc]
    exact hok.fifo.trans (congrArg _ hqueue)
  producer p := by
    rw [producedBy, filterMap_snoc, hputBy, Option.toList, List.append_nil]
    exact hok.producer p
  consumer c' := by
    rw [gotBy, filterMap_snoc, htakenBy]
    by_cases hc : c' = c
    · subst hc
      show _ + (Function.update s.consumer c' x c').left = _
      rw [if_pos rfl, Function.update_self, List.length_append, Nat.add_assoc, ← hleft]
      exact hok.consumer c'
    · show _ + (Function.update s.consumer c x c').left = _
      rw [if_neg hc, Function.update_of_ne hc, List.append_nil]
      exact hok.consumer c'
  size hpos := by
    have hlen := congrArg List.length hqueue
    rw [List.length_append] at hlen
    have hold := hok.size hpos
    show (queue.length : ℤ) ≤ maxsize
    omega
  unfinished := by
    have hsum := Monitor.sum_update_add Consumer.busy s.consumer c x
    have hlen := congrArg List.length hqueue
    have hold := hok.unfinished
    rw [List.length_append] at hlen
    show unfinished = queue.length + ∑ u, (Function.update s.consumer c x u).busy
    omega
  not_failed := (Function.forall_update_iff s.consumer fun _ x => x ≠ .failed).mpr
    ⟨hfailed, fun c _ => hok.not_failed c⟩
  made := by
    rw [produced, filterMap_snoc, hput, Option.toList, List.append_nil]
    exact hok.made
  taken := by
    have hsum := Monitor.sum_update_add Consumer.left s.consumer c x
    have hold := hok.taken
    rw [got, filterMap_snoc, htaken, List.length_append]
    show (got h).length + _ + ∑ u, (Function.update s.consumer c x u).left = _
    omega

/-- **The step lemma**: every task keeps the books. -/
theorem Ok.step (hok : Ok h maxsize items counts s) (hs : step maxsize s t = some (e, s')) :
    Ok (h ++ [e]) maxsize items counts s' := by
  cases moves_step hs with
  | sleeps p item rest hp =>
      have hnow := hok.of_producer (e := .slept p) (p := p) (x := .putting item rest) []
        rfl rfl (fun p' => (ite_self _).symm) (fun c => rfl) (by rw [hp]; rfl)
        (by rw [List.append_nil]; exact hok.size)
      simpa using hnow
  | puts p item rest hp hfull =>
      refine hok.of_producer [item] rfl rfl (fun p' => ?_) (fun c => rfl) ?_ fun hpos => ?_
      · by_cases hpp : p' = p
        · rw [if_pos hpp, Event.putBy, if_pos hpp.symm, Option.toList]
        · rw [if_neg hpp, Event.putBy, if_neg (Ne.symm hpp), Option.toList]
      · rw [hp, left_producer]
        rfl
      · have hlt : (s.queue.length : ℤ) < maxsize := not_le.mp fun hle => hfull ⟨hpos, hle⟩
        rw [List.length_append, List.length_singleton]
        omega
  | gets c more item queue hc hqueue =>
      refine hok.of_consumer [item] rfl rfl (fun p => rfl) (fun c' => ?_) hqueue ?_ ?_ nofun
      · by_cases hcc : c' = c
        · rw [if_pos hcc, Event.takenBy, if_pos hcc.symm, Option.toList]
        · rw [if_neg hcc, Event.takenBy, if_neg (Ne.symm hcc), Option.toList]
      · rw [hc]
        exact Nat.add_comm _ _
      · rw [hc]
        rfl
  | fails c item more hc hzero =>
      -- it counts as unfinished itself
      have hbusy := Finset.single_le_sum (f := fun c => (s.consumer c).busy)
        (fun c _ => Nat.zero_le _) (Finset.mem_univ c)
      have hold := hok.unfinished
      rw [hc] at hbusy
      simp only [Consumer.busy] at hbusy hold
      omega
  | finishes c item more unfinished hc hsucc =>
      have hnow := hok.of_consumer (e := .consumed c item s.queue.length) (c := c)
        (x := .loop more) [] rfl rfl (fun p => rfl) (fun c' => (ite_self _).symm) rfl
        (by rw [hc, left_consumer]; exact (Nat.zero_add _).symm)
        (by rw [hc, hsucc, busy_loop]; rfl) (by cases more <;> exact nofun)
      simpa using hnow

/-! ## Where nobody can go on -/

/-- All coroutines have returned. -/
def AllReturned (s : State m n α) : Prop :=
  (∀ p, s.producer p = .returned) ∧ ∀ c, s.consumer c = .returned

/-- Where nobody can go on, a producer has returned or waits for room. -/
theorem producer_of_stuck (hstuck : ∀ t, step maxsize s t = none) (p : Fin m) :
    s.producer p = .returned ∨ (s.producer p).left ≠ [] ∧ s.full maxsize := by
  have hp := hstuck (.producer p)
  rw [step, stepProducer] at hp
  split at hp
  · cases hp
  · next item rest hput =>
    split at hp
    · next hfull =>
      rw [hput]
      exact Or.inr ⟨List.cons_ne_nil _ _, hfull⟩
    · cases hp
  · next hreturned => exact Or.inl hreturned

/-- Where nobody can go on, a consumer has returned or waits for an item. -/
theorem Ok.consumer_of_stuck (hok : Ok h maxsize items counts s)
    (hstuck : ∀ t, Asyncio.step maxsize s t = none) (c : Fin n) :
    s.consumer c = .returned ∨ (s.consumer c).left ≠ 0 ∧ s.queue = [] := by
  have hc := hstuck (.consumer c)
  rw [Asyncio.step, stepConsumer] at hc
  split at hc
  · next more hget =>
    split at hc
    · next hqueue =>
      rw [hget]
      exact Or.inr ⟨Nat.succ_ne_zero more, hqueue⟩
    · cases hc
  · next item more hsleep => split at hc <;> cases hc
  · next hreturned => exact Or.inl hreturned
  · next hfailed => exact absurd hfailed (hok.not_failed c)

/-- The items are with the producers, in the queue or with the consumers. -/
theorem Ok.length_made (hok : Ok h maxsize items counts s) :
    (got h).length + s.queue.length + ∑ p, (s.producer p).left.length =
      ∑ p, (items p).length := by
  have hcard := congrArg Multiset.card hok.made
  rw [Multiset.card_add, Multiset.card_sum, Multiset.card_sum, hok.fifo, Multiset.coe_card,
    List.length_append] at hcard
  exact hcard

/-- **When everybody returns.** -/
theorem Ok.allReturned_iff (hok : Ok h maxsize items counts s)
    (hstuck : ∀ t, Asyncio.step maxsize s t = none) :
    AllReturned s ↔ ∑ c, counts c ≤ ∑ p, (items p).length ∧
      (0 < maxsize → ((∑ p, (items p).length : ℕ) : ℤ) ≤ (∑ c, counts c : ℕ) + maxsize) := by
  have hmade := hok.length_made
  have htaken := hok.taken
  constructor
  · rintro ⟨hproducer, hconsumer⟩
    have hleft : ∑ p, (s.producer p).left.length = 0 :=
      Finset.sum_eq_zero fun p _ => by rw [hproducer p]; rfl
    have hleft' : ∑ c, (s.consumer c).left = 0 :=
      Finset.sum_eq_zero fun c _ => by rw [hconsumer c]; rfl
    refine ⟨by omega, fun hpos => ?_⟩
    have hsize := hok.size hpos
    omega
  · rintro ⟨hle, hroom⟩
    have hproducer : ∀ p, s.producer p = .returned := by
      intro p
      refine (producer_of_stuck hstuck p).resolve_right ?_
      rintro ⟨hleft, hpos, hfull⟩
      -- the consumers have got all that they want, and the queue is full
      have hconsumer : ∀ c, (s.consumer c).left = 0 := by
        intro c
        rcases hok.consumer_of_stuck hstuck c with hc | ⟨-, hempty⟩
        · rw [hc, Consumer.left]
          all_goals exact nofun
        · rw [hempty] at hfull
          exact absurd hpos (not_lt_of_ge hfull)
      have hone : 0 < ∑ p, (s.producer p).left.length :=
        Finset.sum_pos_iff.mpr ⟨p, Finset.mem_univ p, List.length_pos_iff.mpr hleft⟩
      have hmany := hroom hpos
      rw [Finset.sum_eq_zero fun c _ => hconsumer c] at htaken
      omega
    refine ⟨hproducer, fun c => ?_⟩
    refine (hok.consumer_of_stuck hstuck c).resolve_right ?_
    rintro ⟨hleft, hempty⟩
    have hone : 0 < ∑ c, (s.consumer c).left :=
      Finset.sum_pos_iff.mpr ⟨c, Finset.mem_univ c, Nat.pos_of_ne_zero hleft⟩
    rw [hempty, Finset.sum_eq_zero fun p _ => by rw [hproducer p]; rfl] at hmade
    simp only [List.length_nil] at hmade
    omega

/-- What has been got when everybody has returned and nothing is left. -/
theorem Ok.perm (hok : Ok h maxsize items counts s) (hall : AllReturned s)
    (heq : ∑ c, counts c = ∑ p, (items p).length) : s.results.Perm (List.ofFn items).flatten := by
  have hmade := hok.length_made
  have htaken := hok.taken
  have hproducer : ∀ p, (s.producer p).left = [] := fun p => by rw [hall.1 p]; rfl
  have hconsumer : ∀ c, (s.consumer c).left = 0 := fun c => by rw [hall.2 c]; rfl
  simp only [hproducer, hconsumer, List.length_nil, Finset.sum_const_zero] at hmade htaken
  have hempty : s.queue = [] := List.length_eq_zero_iff.mp (by omega)
  have hbag := hok.made
  simp only [hproducer, hok.fifo, hempty, List.append_nil, ← hok.results, Multiset.coe_nil,
    Finset.sum_const_zero, add_zero] at hbag
  apply Multiset.coe_eq_coe.mp
  rw [hbag, ← Multiset.coe_join, Multiset.join, List.map_ofFn, Multiset.sum_coe, List.sum_ofFn]
  rfl

/-! ## Every run -/

/-- How many steps a producer has left at most. -/
def Producer.toDo : Producer α → ℕ
  | .sleeping _ rest => 2 * rest.length + 2
  | .putting _ rest => 2 * rest.length + 1
  | .returned => 0

/-- How many steps a consumer has left at most. -/
def Consumer.toDo : Consumer α → ℕ
  | .getting more => 2 * more + 2
  | .sleeping _ more => 2 * more + 1
  | _ => 0

/-- Two steps for each item. -/
theorem toDo_producer (items : List α) : (Producer.loop items).toDo = 2 * items.length := by
  cases items <;> rfl

/-- Two steps for each item to come. -/
theorem toDo_consumer (count : ℕ) : (Consumer.loop count : Consumer α).toDo = 2 * count := by
  cases count <;> rfl

/-- The number of steps that are to come. -/
def State.toDo (s : State m n α) : ℕ :=
  ∑ p, (s.producer p).toDo + ∑ c, (s.consumer c).toDo

/-- A producer's step changes what is left by its own share. -/
theorem toDo_setProducer (s₁ : State m n α) (hp : s₁.producer = s.producer)
    (hc : s₁.consumer = s.consumer) (p : Fin m) (x : Producer α) :
    (s₁.setProducer p x).toDo + (s.producer p).toDo = s.toDo + x.toDo := by
  have hsum := Monitor.sum_update_add Producer.toDo s.producer p x
  rw [State.toDo, State.toDo, State.setProducer, hp, hc]
  dsimp only
  omega

/-- A consumer's step changes what is left by its own share. -/
theorem toDo_setConsumer (s₁ : State m n α) (hp : s₁.producer = s.producer)
    (hc : s₁.consumer = s.consumer) (c : Fin n) (x : Consumer α) :
    (s₁.setConsumer c x).toDo + (s.consumer c).toDo = s.toDo + x.toDo := by
  have hsum := Monitor.sum_update_add Consumer.toDo s.consumer c x
  rw [State.toDo, State.toDo, State.setConsumer, hp, hc]
  dsimp only
  omega

/-- Every run comes to an end. -/
theorem halts (maxsize : ℤ) (s : State m n α) : Halts (Asyncio.step maxsize) s := by
  apply halts_of_measure (fun _ => True) State.toDo _ trivial
  intro s t e s' _ hs
  refine ⟨trivial, ?_⟩
  cases moves_step hs with
  | sleeps p item rest hp =>
      have hsum := toDo_setProducer s rfl rfl p (.putting item rest)
      rw [hp] at hsum
      simp only [Producer.toDo] at hsum
      omega
  | puts p item rest hp hfull =>
      have hsum := toDo_setProducer (s := s)
        { s with queue := s.queue ++ [item], unfinished := s.unfinished + 1 } rfl rfl p
        (.loop rest)
      rw [hp, toDo_producer] at hsum
      simp only [Producer.toDo] at hsum
      omega
  | gets c more item queue hc hqueue =>
      have hsum := toDo_setConsumer (s := s)
        { s with queue := queue, results := s.results ++ [item] } rfl rfl c (.sleeping item more)
      rw [hc] at hsum
      simp only [Consumer.toDo] at hsum
      omega
  | fails c item more hc hzero =>
      have hsum := toDo_setConsumer s rfl rfl c .failed
      rw [hc] at hsum
      simp only [Consumer.toDo] at hsum
      omega
  | finishes c item more unfinished hc hsucc =>
      have hsum := toDo_setConsumer (s := s) { s with unfinished := unfinished } rfl rfl c
        (.loop more)
      rw [hc, toDo_consumer] at hsum
      simp only [Consumer.toDo] at hsum
      omega

/-- **Producers and consumers.** -/
theorem asyncio_correct (maxsize : ℤ) (items : Fin m → List α) (counts : Fin n → ℕ) :
    Halts (step maxsize) (start items counts) ∧
    ∀ h s, Run (step maxsize) anyStep (start items counts) h s →
      s.results = got h ∧ produced h = got h ++ s.queue ∧
      (∀ p, producedBy h p <+: items p) ∧
      (∀ c, (gotBy h c).length + (s.consumer c).left = counts c) ∧
      (0 < maxsize → (s.queue.length : ℤ) ≤ maxsize) ∧
      (∀ c, s.consumer c ≠ .failed) ∧
      ((∀ t, step maxsize s t = none) →
        (AllReturned s ↔ ∑ c, counts c ≤ ∑ p, (items p).length ∧
          (0 < maxsize → ((∑ p, (items p).length : ℕ) : ℤ) ≤ (∑ c, counts c : ℕ) + maxsize)) ∧
        (AllReturned s → ∑ c, counts c = ∑ p, (items p).length →
          s.results.Perm (List.ofFn items).flatten)) := by
  refine ⟨halts maxsize _, fun h s hr => ?_⟩
  have hok : Ok h maxsize items counts s :=
    hr.invariant (fun h s => Ok h maxsize items counts s) (Ok.start maxsize items counts)
      fun _ _ _ _ _ hok _ hs => hok.step hs
  exact ⟨hok.results, hok.fifo, fun p => ⟨_, hok.producer p⟩, hok.consumer, hok.size,
    hok.not_failed, fun hstuck => ⟨hok.allReturned_iff hstuck, hok.perm⟩⟩

end Asyncio

end Coroutine

/-
# Producers and consumers (`cpp/shared_memory_lock/producer_consumer.cpp`)

`main` starts producers and consumers, joins the producers, sets `done` under the lock and
notifies, and joins the consumers.  The threads are those of a monitor: `cv.wait(lock, p)` waits for
`p`, and `cv.notify_all()` comes after `lock.unlock()`.  The numbers of threads and of items and
`MAX_BUFFER` are parameters; a thread that has not been started yet is one that makes no step.

* `Ok` : what holds of the atomic system in every state;
* `Ok.stuck`, `halts_atomic` : it comes to a halt, with all threads returned and nothing left;
* `producerConsumer_correct` : every item comes out once, in order, whoever sleeps has reason to,
  and every run ends.
-/
import Cocurrency.Lib.MonitorHalts
import Mathlib.Data.Fintype.Sum
import Mathlib.Data.List.Infix
import Mathlib.Tactic.DeriveFintype

namespace Lock

namespace CppProducerConsumer

open Monitor (Section Instr Atomic Deed deed)

/-- The shared variables. -/
structure Shared where
  buffer : List ℤ
  done : Bool

/-- The threads that `main` starts, and its own. -/
inductive ThreadId (m n : ℕ) where
  | main
  | producer (p : Fin m)
  | consumer (c : Fin n)
  deriving DecidableEq, Fintype

/-- How a critical section ends; what is printed includes the size of the buffer. -/
inductive Result where
  | pushed (item : ℤ) (size : ℕ)
  | popped (item : ℤ) (size : ℕ)
  /-- `break` -/
  | ended
  | set
  /-- `front` of an empty queue -/
  | undefined
  deriving DecidableEq

/-- Where a thread is between its critical sections. -/
inductive Control (m : ℕ) where
  /-- at the head of `for (int i = 0; i < 10; ++i)` -/
  | producer (p : Fin m) (i : ℕ)
  /-- at the head of `while (true)` -/
  | consumer
  | ended
  | joinProducers
  | setDone
  | joinConsumers
  | returned
  deriving DecidableEq

/-- `i + id * 100`; the producers are numbered from 1. -/
def item {m : ℕ} (p : Fin m) (i : ℕ) : ℤ := i + (p + 1) * 100

section Code

variable (MAX_BUFFER items m n : ℕ)

/-- The critical section of `producer`. -/
def produce (item : ℤ) : Section Shared Result where
  guard s := s.buffer.length < MAX_BUFFER
  body := .access (fun s => { s with buffer := s.buffer ++ [item] }) fun _ =>
    .access id fun s => .done (.pushed item s.buffer.length)
  notifies _ := true
  notifiesInside := false

/-- The critical section of `consumer`; after `break` nobody is notified. -/
def consume : Section Shared Result where
  guard s := !s.buffer.isEmpty || s.done
  body := .access id fun s =>
    if s.buffer.isEmpty && s.done then .done .ended
    else .access id fun s =>
      match s.buffer with
      | [] => .done .undefined
      | item :: _ =>
          .access (fun s => { s with buffer := s.buffer.tail }) fun _ =>
            .access id fun s => .done (.popped item s.buffer.length)
  notifies
    | .ended => false
    | _ => true
  notifiesInside := false

/-- The block of `main`. -/
def finish : Section Shared Result where
  guard _ := true
  body := .access (fun s => { s with done := true }) fun _ => .done .set
  notifies _ := true
  notifiesInside := false

/-- The code of the threads. -/
def code : Control m → Instr (ThreadId m n) (Control m) Shared Result
  | .producer p i =>
      if i < items then .locked (produce MAX_BUFFER (item p i)) fun _ => .producer p (i + 1)
      else .finished
  | .consumer =>
      .locked consume fun result =>
        match result with
        | .ended => .ended
        | _ => .consumer
  | .joinProducers => .join ((List.finRange m).map .producer) .setDone
  | .setDone => .locked finish fun _ => .joinConsumers
  | .joinConsumers => .join ((List.finRange n).map .consumer) .returned
  | .ended | .returned => .finished

/-- Where each thread begins. -/
def begins : ThreadId m n → Control m
  | .main => .joinProducers
  | .producer p => .producer p 0
  | .consumer _ => .consumer

/-- Nothing in the buffer, and not done. -/
def empty : Shared := ⟨[], false⟩

end Code

/-! ## The critical sections at once -/

variable {MAX_BUFFER items m n : ℕ}

/-- A push. -/
theorem run_produce (x : ℤ) (s : Shared) :
    (produce MAX_BUFFER x).body.run s =
      (.pushed x (s.buffer ++ [x]).length, { s with buffer := s.buffer ++ [x] }) := rfl

theorem run_consume_ended {s : Shared} (hempty : s.buffer = []) (hdone : s.done = true) :
    consume.body.run s = (.ended, s) := by
  obtain ⟨buffer, done⟩ := s
  cases hempty
  cases hdone
  rfl

/-- A pop. -/
theorem run_consume_popped {s : Shared} {x : ℤ} {rest : List ℤ} (hbuffer : s.buffer = x :: rest) :
    consume.body.run s = (.popped x rest.length, { s with buffer := rest }) := by
  obtain ⟨buffer, done⟩ := s
  cases hbuffer
  rfl

/-- A consumer that need not wait finds an item, or the end. -/
theorem consume_guard {s : Shared} (h : consume.guard s = true) :
    (∃ x rest, s.buffer = x :: rest) ∨ s.buffer = [] ∧ s.done = true := by
  cases hbuffer : s.buffer with
  | nil =>
      refine Or.inr ⟨rfl, ?_⟩
      simpa [consume, hbuffer] using h
  | cons x rest => exact Or.inl ⟨x, rest, rfl⟩

/-- The items pushed by producer `p`. -/
def pushedBy (p : Fin m) (d : List (Deed (ThreadId m n) Result)) : List ℤ :=
  d.filterMap fun e => match e with
    | .returned (.producer q) (.pushed x _) => if q = p then some x else none
    | _ => none

/-- What has been pushed. -/
def pushed (d : List (Deed (ThreadId m n) Result)) : List ℤ :=
  d.filterMap fun e => match e with
    | .returned _ (.pushed x _) => some x
    | _ => none

/-- What has been popped. -/
def popped (d : List (Deed (ThreadId m n) Result)) : List ℤ :=
  d.filterMap fun e => match e with
    | .returned _ (.popped x _) => some x
    | _ => none

/-- No front of an empty queue, and no size that is printed is above the bound. -/
def Fine (MAX_BUFFER : ℕ) : Deed (ThreadId m n) Result → Prop
  | .returned _ .undefined => False
  | .returned _ (.pushed _ size) | .returned _ (.popped _ size) => size ≤ MAX_BUFFER
  | _ => True

/-! ## The atomic system -/

variable {d : List (Deed (ThreadId m n) Result)} {a a' : Atomic (ThreadId m n) (Control m) Shared}
  {t : ThreadId m n} {e : Deed (ThreadId m n) Result}

/-- The step of the atomic system. -/
def atomicStep (MAX_BUFFER items m n : ℕ) :=
  Atomic.step (code MAX_BUFFER items m n)

/-- All producers are through with their loops. -/
def Produced (items : ℕ) (a : Atomic (ThreadId m n) (Control m) Shared) : Prop :=
  ∀ p, a.control (.producer p) = .producer p items

/-- Where `main` is. -/
def MainOk (items : ℕ) (a : Atomic (ThreadId m n) (Control m) Shared) : Prop :=
  a.control .main = .joinProducers ∧ a.shared.done = false ∨
  a.control .main = .setDone ∧ a.shared.done = false ∧ Produced items a ∨
  (a.control .main = .joinConsumers ∨ a.control .main = .returned) ∧ a.shared.done = true ∧
    Produced items a

/-- What holds of the atomic system in every state. -/
structure Ok (MAX_BUFFER items : ℕ) (d : List (Deed (ThreadId m n) Result))
    (a : Atomic (ThreadId m n) (Control m) Shared) : Prop where
  producer : ∀ p, ∃ i, i ≤ items ∧ a.control (.producer p) = .producer p i ∧
    pushedBy p d = (List.range i).map (item p)
  consumer : ∀ c, a.control (.consumer c) = .consumer ∨
    a.control (.consumer c) = .ended ∧ a.shared.done = true ∧ a.shared.buffer = []
  main : MainOk items a
  size : a.shared.buffer.length ≤ MAX_BUFFER
  fifo : pushed d = popped d ++ a.shared.buffer
  fine : ∀ x ∈ d, Fine MAX_BUFFER x

/-- At the start nothing has been pushed. -/
theorem Ok.start : Ok MAX_BUFFER items [] (Atomic.start empty (begins m n)) where
  producer _ := ⟨0, Nat.zero_le _, rfl, rfl⟩
  consumer _ := Or.inl rfl
  main := Or.inl ⟨rfl, rfl⟩
  size := Nat.zero_le _
  fifo := rfl
  fine := List.forall_mem_nil _

/-- A producer pushes its next item. -/
theorem step_producer {p : Fin m} {i : ℕ} (hcontrol : a.control (.producer p) = .producer p i)
    (h : atomicStep MAX_BUFFER items m n a (.producer p) = some (e, a')) :
    i < items ∧ a.shared.buffer.length < MAX_BUFFER ∧
      e = .returned (.producer p) (.pushed (item p i) (a.shared.buffer.length + 1)) ∧
      a' = ⟨{ a.shared with buffer := a.shared.buffer ++ [item p i] },
        Function.update a.control (.producer p) (.producer p (i + 1))⟩ := by
  by_cases hi : i < items
  · have hcode : code MAX_BUFFER items m n (a.control (.producer p)) =
        .locked (produce MAX_BUFFER (item p i)) fun _ => .producer p (i + 1) := by
      rw [hcontrol, code, if_pos hi]
    obtain ⟨hguard, he, ha'⟩ := Atomic.step_locked hcode h
    rw [run_produce] at he ha'
    rw [List.length_append] at he
    exact ⟨hi, of_decide_eq_true hguard, he, ha'⟩
  · rw [atomicStep, Atomic.step, hcontrol, code, if_neg hi] at h
    cases h

/-- A consumer pops an item, or ends. -/
theorem step_consumer {c : Fin n} (hcontrol : a.control (.consumer c) = .consumer)
    (h : atomicStep MAX_BUFFER items m n a (.consumer c) = some (e, a')) :
    (∃ x rest, a.shared.buffer = x :: rest ∧ e = .returned (.consumer c) (.popped x rest.length) ∧
      a' = ⟨{ a.shared with buffer := rest },
        Function.update a.control (.consumer c) .consumer⟩) ∨
    a.shared.buffer = [] ∧ a.shared.done = true ∧ e = .returned (.consumer c) .ended ∧
      a' = ⟨a.shared, Function.update a.control (.consumer c) .ended⟩ := by
  have hcode : code MAX_BUFFER items m n (a.control (.consumer c)) =
      .locked consume fun result => match result with
        | .ended => .ended
        | _ => .consumer := by
    rw [hcontrol, code]
  obtain ⟨hguard, he, ha'⟩ := Atomic.step_locked hcode h
  rcases consume_guard hguard with ⟨x, rest, hbuffer⟩ | ⟨hempty, hdone⟩
  · rw [run_consume_popped hbuffer] at he ha'
    exact Or.inl ⟨x, rest, hbuffer, he, ha'⟩
  · rw [run_consume_ended hempty hdone] at he ha'
    exact Or.inr ⟨hempty, hdone, he, ha'⟩

/-- A thread that has returned makes no step. -/
theorem step_of_finished (hcode : code MAX_BUFFER items m n (a.control t) = .finished) :
    atomicStep MAX_BUFFER items m n a t = none := by
  rw [atomicStep, Atomic.step, hcode]

/-- A producer that has finished has pushed all its items. -/
theorem isFinished_producer {p : Fin m} {i : ℕ} (hi : i ≤ items)
    (h : (code MAX_BUFFER items m n (.producer p i)).isFinished = true) : i = items := by
  rw [code] at h
  split at h
  · cases h
  · next hnot => exact Nat.le_antisymm hi (Nat.le_of_not_lt hnot)

/-- A step of another thread. -/
theorem control_of_ne {u : ThreadId m n} {v : Shared} {k k' : Control m} (h : a.control u = k')
    (hne : u ≠ t) : (⟨v, Function.update a.control t k⟩ : Atomic _ _ _).control u = k' :=
  (Atomic.control_of_ne hne v k).trans h

/-- One event more. -/
theorem Ok.fine_snoc (h : Ok MAX_BUFFER items d a) (he : Fine MAX_BUFFER e) :
    ∀ x ∈ d ++ [e], Fine MAX_BUFFER x := by
  intro x hx
  rcases List.mem_append.mp hx with hx | hx
  · exact h.fine x hx
  · rw [List.mem_singleton.mp hx]
    exact he

/-- A producer pushes. -/
theorem Ok.step_producer {p : Fin m} (h : Ok MAX_BUFFER items d a)
    (hs : atomicStep MAX_BUFFER items m n a (.producer p) = some (e, a')) :
    Ok MAX_BUFFER items (d ++ [e]) a' := by
  obtain ⟨i, hile, hcontrol, hpushed⟩ := h.producer p
  obtain ⟨hi, hroom, rfl, rfl⟩ := CppProducerConsumer.step_producer hcontrol hs
  -- somebody produces still
  have hnot : ¬ Produced items a := by
    intro hall
    have hp := hall p
    rw [hcontrol, Control.producer.injEq] at hp
    omega
  have hmain : a.control .main = .joinProducers ∧ a.shared.done = false := by
    rcases h.main with hjoin | ⟨-, -, hall⟩ | ⟨-, -, hall⟩
    · exact hjoin
    · exact absurd hall hnot
    · exact absurd hall hnot
  constructor
  · intro q
    by_cases hq : q = p
    · subst hq
      refine ⟨i + 1, hi, Atomic.control_self _ _ _ _, ?_⟩
      rw [List.range_succ, List.map_append, ← hpushed]
      simp [pushedBy]
    · obtain ⟨j, hj, hcontrol', hpushed'⟩ := h.producer q
      refine ⟨j, hj, control_of_ne hcontrol' (by simpa using hq), ?_⟩
      rw [← hpushed']
      simp [pushedBy, Ne.symm hq]
  · intro c
    rcases h.consumer c with hc | ⟨-, hdone, -⟩
    · exact Or.inl (control_of_ne hc (by simp))
    · rw [hmain.2] at hdone
      cases hdone
  · exact Or.inl ⟨control_of_ne hmain.1 (by simp), hmain.2⟩
  · show (a.shared.buffer ++ [item p i]).length ≤ MAX_BUFFER
    rw [List.length_append]
    exact hroom
  · have hin : pushed (d ++ [.returned (.producer p) (.pushed (item p i)
        (a.shared.buffer.length + 1))]) = pushed d ++ [item p i] := by simp [pushed]
    have hout : popped (d ++ [.returned (.producer p) (.pushed (item p i)
        (a.shared.buffer.length + 1))]) = popped d := by simp [popped]
    rw [hin, hout, h.fifo]
    exact List.append_assoc _ _ _
  · exact h.fine_snoc hroom

/-- A step of a thread that is no producer, and not `main`. -/
theorem MainOk.keeps (h : MainOk items a) (hdone : a'.shared.done = a.shared.done)
    (hmain : a'.control .main = a.control .main)
    (hproducer : ∀ p, a'.control (.producer p) = a.control (.producer p)) : MainOk items a' := by
  have hall : Produced items a → Produced items a' := fun hall p => (hproducer p).trans (hall p)
  unfold MainOk
  rw [hdone, hmain]
  rcases h with hjoin | ⟨hset, hfalse, hp⟩ | ⟨hjoin, htrue, hp⟩
  · exact Or.inl hjoin
  · exact Or.inr (Or.inl ⟨hset, hfalse, hall hp⟩)
  · exact Or.inr (Or.inr ⟨hjoin, htrue, hall hp⟩)

/-- A consumer pops, or ends. -/
theorem Ok.step_consumer {c : Fin n} (h : Ok MAX_BUFFER items d a)
    (hs : atomicStep MAX_BUFFER items m n a (.consumer c) = some (e, a')) :
    Ok MAX_BUFFER items (d ++ [e]) a' := by
  rcases h.consumer c with hcontrol | ⟨hcontrol, -, -⟩
  · rcases CppProducerConsumer.step_consumer hcontrol hs with ⟨x, rest, hbuffer, rfl, rfl⟩ |
      ⟨hempty, hdone, rfl, rfl⟩
    · have hsize := h.size
      rw [hbuffer, List.length_cons] at hsize
      constructor
      · intro p
        obtain ⟨i, hi, hp, hpushed⟩ := h.producer p
        exact ⟨i, hi, control_of_ne hp (by simp), by rw [← hpushed]; simp [pushedBy]⟩
      · intro c'
        by_cases hc : c' = c
        · subst hc
          exact Or.inl (Atomic.control_self _ _ _ _)
        · rcases h.consumer c' with hc' | ⟨-, -, hempty⟩
          · exact Or.inl (control_of_ne hc' (by simpa using hc))
          · rw [hbuffer] at hempty
            cases hempty
      · exact h.main.keeps rfl (control_of_ne rfl (by simp))
          fun p => control_of_ne rfl (by simp)
      · exact Nat.le_of_succ_le hsize
      · have hin : pushed (d ++ [.returned (.consumer c) (.popped x rest.length)]) = pushed d := by
          simp [pushed]
        have hout : popped (d ++ [.returned (.consumer c) (.popped x rest.length)]) =
            popped d ++ [x] := by simp [popped]
        rw [hin, hout, h.fifo, hbuffer, List.append_assoc]
        rfl
      · exact h.fine_snoc (Nat.le_of_succ_le hsize)
    · constructor
      · intro p
        obtain ⟨i, hi, hp, hpushed⟩ := h.producer p
        exact ⟨i, hi, control_of_ne hp (by simp), by rw [← hpushed]; simp [pushedBy]⟩
      · intro c'
        by_cases hc : c' = c
        · subst hc
          exact Or.inr ⟨Atomic.control_self _ _ _ _, hdone, hempty⟩
        · rcases h.consumer c' with hc' | ⟨hc', -, -⟩
          · exact Or.inl (control_of_ne hc' (by simpa using hc))
          · exact Or.inr ⟨control_of_ne hc' (by simpa using hc), hdone, hempty⟩
      · exact h.main.keeps rfl (control_of_ne rfl (by simp))
          fun p => control_of_ne rfl (by simp)
      · exact h.size
      · have hin : pushed (d ++ [.returned (.consumer c) .ended]) = pushed d := by simp [pushed]
        have hout : popped (d ++ [.returned (.consumer c) .ended]) = popped d := by simp [popped]
        rw [hin, hout]
        exact h.fifo
      · exact h.fine_snoc trivial
  · rw [step_of_finished (by rw [hcontrol]; rfl)] at hs
    cases hs

/-- A step of `main`, which neither pushes nor pops. -/
theorem Ok.of_main {k : Control m} {v : Shared} (h : Ok MAX_BUFFER items d a)
    (hbuffer : v.buffer = a.shared.buffer) (hdone : a.shared.done = true → v.done = true)
    (he : e = .joined .main ∨ e = .returned .main .set)
    (hmain : MainOk items ⟨v, Function.update a.control .main k⟩) :
    Ok MAX_BUFFER items (d ++ [e]) ⟨v, Function.update a.control .main k⟩ := by
  constructor
  · intro p
    obtain ⟨i, hi, hp, hpushed⟩ := h.producer p
    refine ⟨i, hi, control_of_ne hp (by simp), ?_⟩
    rw [← hpushed]
    rcases he with rfl | rfl <;> simp [pushedBy]
  · intro c
    rcases h.consumer c with hc | ⟨hc, htrue, hempty⟩
    · exact Or.inl (control_of_ne hc (by simp))
    · exact Or.inr ⟨control_of_ne hc (by simp), hdone htrue, hbuffer.trans hempty⟩
  · exact hmain
  · show v.buffer.length ≤ MAX_BUFFER
    rw [hbuffer]
    exact h.size
  · have hin : pushed (d ++ [e]) = pushed d := by rcases he with rfl | rfl <;> simp [pushed]
    have hout : popped (d ++ [e]) = popped d := by rcases he with rfl | rfl <;> simp [popped]
    rw [hin, hout, h.fifo]
    exact congrArg (popped d ++ ·) hbuffer.symm
  · exact h.fine_snoc (by rcases he with rfl | rfl <;> trivial)

/-- `main` has joined the producers. -/
theorem produced_of_joined (h : Ok MAX_BUFFER items d a)
    (hall : ∀ u ∈ (List.finRange m).map ThreadId.producer,
      (code MAX_BUFFER items m n (a.control u)).isFinished = true) : Produced items a := by
  intro p
  obtain ⟨i, hi, hp, -⟩ := h.producer p
  have hfin := hall (.producer p) (List.mem_map_of_mem (List.mem_finRange p))
  rw [hp] at hfin
  rw [hp, isFinished_producer hi hfin]

/-- `main` joins the producers, sets `done`, and joins the consumers. -/
theorem Ok.step_main (h : Ok MAX_BUFFER items d a)
    (hs : atomicStep MAX_BUFFER items m n a .main = some (e, a')) :
    Ok MAX_BUFFER items (d ++ [e]) a' := by
  have hnow : ∀ v : Shared, ∀ k : Control m,
      (⟨v, Function.update a.control .main k⟩ : Atomic _ _ _).control .main = k :=
    fun v k => Atomic.control_self a.control v .main k
  have hproducers : ∀ v : Shared, ∀ k : Control m, Produced items a →
      Produced items ⟨v, Function.update a.control .main k⟩ :=
    fun v k hall p => control_of_ne (hall p) (by simp)
  rcases h.main with ⟨hcontrol, hfalse⟩ | ⟨hcontrol, hfalse, hall⟩ | ⟨hcontrol, htrue, hall⟩
  · have hcode : code MAX_BUFFER items m n (a.control .main) =
        .join ((List.finRange m).map .producer) .setDone := by rw [hcontrol, code]
    obtain ⟨hjoined, rfl, rfl⟩ := Atomic.step_join hcode hs
    refine h.of_main rfl id (Or.inl rfl) (Or.inr (Or.inl ⟨hnow _ _, hfalse, ?_⟩))
    exact hproducers _ _ (produced_of_joined h hjoined)
  · have hcode : code MAX_BUFFER items m n (a.control .main) =
        .locked finish fun _ => .joinConsumers := by rw [hcontrol, code]
    obtain ⟨-, rfl, rfl⟩ := Atomic.step_locked hcode hs
    exact h.of_main rfl (fun _ => rfl) (Or.inr rfl)
      (Or.inr (Or.inr ⟨Or.inl (hnow _ _), rfl, hproducers _ _ hall⟩))
  · rcases hcontrol with hcontrol | hcontrol
    · have hcode : code MAX_BUFFER items m n (a.control .main) =
          .join ((List.finRange n).map .consumer) .returned := by rw [hcontrol, code]
      obtain ⟨-, rfl, rfl⟩ := Atomic.step_join hcode hs
      exact h.of_main rfl id (Or.inl rfl)
        (Or.inr (Or.inr ⟨Or.inr (hnow _ _), htrue, hproducers _ _ hall⟩))
    · rw [step_of_finished (by rw [hcontrol]; rfl)] at hs
      cases hs

/-- **The step lemma**. -/
theorem Ok.step (h : Ok MAX_BUFFER items d a)
    (hs : atomicStep MAX_BUFFER items m n a t = some (e, a')) :
    Ok MAX_BUFFER items (d ++ [e]) a' := by
  cases t with
  | main => exact h.step_main hs
  | producer p => exact h.step_producer hs
  | consumer c => exact h.step_consumer hs

/-! ## Where it comes to a halt -/

/-- The atomic system comes to a halt where everybody has returned and nothing is left. -/
theorem Ok.stuck (h : Ok MAX_BUFFER items d a) (hmax : 1 ≤ MAX_BUFFER) (hn : 1 ≤ n)
    (hstuck : ∀ t, atomicStep MAX_BUFFER items m n a t = none) :
    (∀ t, (code MAX_BUFFER items m n (a.control t)).isFinished = true) ∧ Produced items a ∧
      a.shared.buffer = [] := by
  -- a consumer that has not ended waits for an item, and a producer for room
  have hconsumer : ∀ c, a.control (.consumer c) = .consumer →
      a.shared.buffer = [] ∧ a.shared.done = false := by
    intro c hc
    have hguard : consume.guard a.shared = false :=
      Atomic.guard_of_stuck (by rw [hc, code]) (hstuck (.consumer c))
    simpa [consume] using hguard
  have hproducer : ∀ p, a.control (.producer p) ≠ .producer p items → a.shared.buffer ≠ [] := by
    intro p hp hempty
    obtain ⟨i, hi, hcontrol, -⟩ := h.producer p
    have hlt : i < items := by
      apply Nat.lt_of_le_of_ne hi
      rintro rfl
      exact hp hcontrol
    have hguard : (produce MAX_BUFFER (item p i)).guard a.shared = false :=
      Atomic.guard_of_stuck (by rw [hcontrol, code, if_pos hlt]) (hstuck (.producer p))
    have hfull : ¬ a.shared.buffer.length < MAX_BUFFER := of_decide_eq_false hguard
    rw [hempty, List.length_nil] at hfull
    exact hfull hmax
  have hproduced : Produced items a := by
    by_contra hnot
    obtain ⟨p, hp⟩ := not_forall.mp hnot
    have hfalse : a.shared.done = false := by
      rcases h.main with ⟨-, hfalse⟩ | ⟨-, -, hall⟩ | ⟨-, -, hall⟩
      · exact hfalse
      · exact absurd hall hnot
      · exact absurd hall hnot
    rcases h.consumer ⟨0, hn⟩ with hc | ⟨-, htrue, -⟩
    · exact hproducer p hp (hconsumer _ hc).1
    · rw [hfalse] at htrue
      cases htrue
  have hfin : ∀ p, (code MAX_BUFFER items m n (a.control (.producer p))).isFinished = true := by
    intro p
    rw [hproduced p, code, if_neg (Nat.lt_irrefl _)]
    rfl
  rcases h.main with ⟨hcontrol, -⟩ | ⟨hcontrol, -, -⟩ | ⟨hcontrol, htrue, -⟩
  · obtain ⟨u, hu, hnot⟩ := Atomic.join_of_stuck (by rw [hcontrol, code]) (hstuck .main)
    obtain ⟨p, -, rfl⟩ := List.mem_map.mp hu
    rw [hfin p] at hnot
    cases hnot
  · have hguard : finish.guard a.shared = false :=
      Atomic.guard_of_stuck (by rw [hcontrol, code]) (hstuck .main)
    cases hguard
  · have hended : ∀ c, a.control (.consumer c) = .ended ∧ a.shared.buffer = [] := by
      intro c
      rcases h.consumer c with hc | ⟨hc, -, hempty⟩
      · rw [(hconsumer c hc).2] at htrue
        cases htrue
      · exact ⟨hc, hempty⟩
    have hfin' : ∀ c, (code MAX_BUFFER items m n (a.control (.consumer c))).isFinished = true := by
      intro c
      rw [(hended c).1]
      rfl
    refine ⟨fun t => ?_, hproduced, (hended ⟨0, hn⟩).2⟩
    cases t with
    | producer p => exact hfin p
    | consumer c => exact hfin' c
    | main =>
        rcases hcontrol with hcontrol | hcontrol
        · obtain ⟨u, hu, hnot⟩ := Atomic.join_of_stuck (by rw [hcontrol, code]) (hstuck .main)
          obtain ⟨c, -, rfl⟩ := List.mem_map.mp hu
          rw [hfin' c] at hnot
          cases hnot
        · rw [hcontrol]
          rfl

/-- How much thread `t` is still to do; an item that is pushed is also to be popped. -/
def toDo (items : ℕ) : Control m → ℕ
  | .producer _ i => 2 * (items - i)
  | .consumer => 1
  | .joinProducers => 3
  | .setDone => 2
  | .joinConsumers => 1
  | .ended | .returned => 0

/-- All that is to be done. -/
def allToDo (items : ℕ) (a : Atomic (ThreadId m n) (Control m) Shared) : ℕ :=
  ∑ t, toDo items (a.control t) + a.shared.buffer.length

/-- The step of a thread that goes on at `k` and leaves the buffer as `v` has it. -/
theorem allToDo_lt {k : Control m} {v : Shared}
    (h : toDo items k + v.buffer.length <
      toDo items (a.control t) + a.shared.buffer.length) :
    allToDo items ⟨v, Function.update a.control t k⟩ < allToDo items a := by
  have hsum := Monitor.sum_update_add (toDo items) a.control t k
  show ∑ u, toDo items (Function.update a.control t k u) + v.buffer.length <
    ∑ u, toDo items (a.control u) + a.shared.buffer.length
  omega

/-- Every step lowers what is to be done. -/
theorem Ok.allToDo_lt (h : Ok MAX_BUFFER items d a)
    (hs : atomicStep MAX_BUFFER items m n a t = some (e, a')) :
    allToDo items a' < allToDo items a := by
  cases t with
  | producer p =>
      obtain ⟨i, -, hcontrol, -⟩ := h.producer p
      obtain ⟨hi, -, -, rfl⟩ := CppProducerConsumer.step_producer hcontrol hs
      apply CppProducerConsumer.allToDo_lt
      rw [hcontrol, toDo, toDo, List.length_append, List.length_singleton]
      omega
  | consumer c =>
      rcases h.consumer c with hcontrol | ⟨hcontrol, -, -⟩
      · rcases CppProducerConsumer.step_consumer hcontrol hs with ⟨x, rest, hbuffer, -, rfl⟩ |
          ⟨-, -, -, rfl⟩
        · apply CppProducerConsumer.allToDo_lt
          rw [hcontrol, hbuffer]
          exact Nat.lt_succ_self _
        · apply CppProducerConsumer.allToDo_lt
          rw [hcontrol]
          exact Nat.add_lt_add_right Nat.one_pos _
      · rw [step_of_finished (by rw [hcontrol]; rfl)] at hs
        cases hs
  | main =>
      rcases h.main with ⟨hcontrol, -⟩ | ⟨hcontrol, -, -⟩ | ⟨hcontrol | hcontrol, -, -⟩
      · obtain ⟨-, -, rfl⟩ := Atomic.step_join (by rw [hcontrol, code]) hs
        apply CppProducerConsumer.allToDo_lt
        rw [hcontrol]
        exact Nat.add_lt_add_right (Nat.lt_succ_self _) _
      · obtain ⟨-, -, rfl⟩ := Atomic.step_locked (by rw [hcontrol, code]) hs
        apply CppProducerConsumer.allToDo_lt
        rw [hcontrol]
        exact Nat.add_lt_add_right (Nat.lt_succ_self _) _
      · obtain ⟨-, -, rfl⟩ := Atomic.step_join (by rw [hcontrol, code]) hs
        apply CppProducerConsumer.allToDo_lt
        rw [hcontrol]
        exact Nat.add_lt_add_right (Nat.lt_succ_self _) _
      · rw [step_of_finished (by rw [hcontrol]; rfl)] at hs
        cases hs

/-- Every run of the atomic system comes to an end. -/
theorem halts_atomic (MAX_BUFFER items m n : ℕ) :
    Halts (atomicStep MAX_BUFFER items m n) (Atomic.start empty (begins m n)) := by
  apply halts_of_measure (fun a => ∃ d, Ok MAX_BUFFER items d a) (allToDo items) _
    ⟨[], Ok.start⟩
  rintro a t e a' ⟨d, h⟩ hs
  exact ⟨⟨d ++ [e], h.step hs⟩, h.allToDo_lt hs⟩

/-! ## Every run -/

/-- The program. -/
def step (MAX_BUFFER items m n : ℕ) := Monitor.State.step (code MAX_BUFFER items m n)

/-- All threads are at the beginning, and the buffer is empty. -/
def start (m n : ℕ) : Monitor.State (ThreadId m n) (Control m) Shared Result :=
  .start empty (begins m n)

/-- There are three critical sections. -/
theorem code_locked {k : Control m} {call : Section Shared Result} {next : Result → Control m}
    (h : code MAX_BUFFER items m n k = .locked call next) :
    (∃ x, call = produce MAX_BUFFER x) ∨ call = consume ∨ call = finish := by
  cases k with
  | producer p i =>
      rw [code] at h
      split at h
      · cases h
        exact Or.inl ⟨_, rfl⟩
      · cases h
  | consumer =>
      cases h
      exact Or.inr (Or.inl rfl)
  | setDone =>
      cases h
      exact Or.inr (Or.inr rfl)
  | _ => cases h

/-- Every critical section but the last one of a consumer, which changes nothing, notifies. -/
theorem notifying (MAX_BUFFER items m n : ℕ) :
    Monitor.Notifying (code MAX_BUFFER items m n) fun _ => True := by
  intro k call next k' call' next' _ _ hcode _ v hguard hnotifies hafter
  rcases code_locked hcode with ⟨x, rfl⟩ | rfl | rfl
  · cases hnotifies
  · rcases consume_guard hguard with ⟨x, rest, hbuffer⟩ | ⟨hempty, hdone⟩
    · rw [run_consume_popped hbuffer] at hnotifies
      cases hnotifies
    · rw [run_consume_ended hempty hdone] at hafter
      exact hafter
  · cases hnotifies

end CppProducerConsumer

end Lock

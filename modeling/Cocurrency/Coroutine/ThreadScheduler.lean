/-
# Coroutines on threads (`python/stackful_coroutine/greenlet_demo.py`)

A `ThreadBasedCoro` suspends by a message on its `_sched_q` and goes on with a token from its
`_resume_q`.  `ThreadScheduler.run` switches to each coroutine once, when it starts it, and then
joins the threads: a coroutine has one token, for its first suspension, and none for a second one.

* `Coro.Ok` : the tokens and messages of one coroutine, counted;
* `progress_iff` : no run is stuck if and only if no coroutine suspends more than once.
-/
import Cocurrency.Lib.Run
import Mathlib.Algebra.Order.BigOperators.Group.Finset
import Mathlib.Algebra.Order.Ring.Nat
import Mathlib.Algebra.Ring.Nat
import Mathlib.Data.List.GetD
import Mathlib.Logic.Function.Basic
import Mathlib.Tactic.SplitIfs

namespace Coroutine

namespace ThreadScheduler

/-- What is put on a `_sched_q`. -/
inductive Message where
  | suspended
  | done
  deriving DecidableEq, Repr

/-- Where the thread of a coroutine is. -/
inductive Phase where
  | unstarted
  /-- Before segment `k` of the target. -/
  | segment (k : ℕ)
  /-- After segment `k`, before the message. -/
  | suspends (k : ℕ)
  /-- Waiting for the token with which segment `k` begins. -/
  | waits (k : ℕ)
  /-- The target puts `done`, and then `_run` does. -/
  | targetDone
  | runDone
  /-- In `finally`. -/
  | stopping
  | finished
  deriving DecidableEq, Repr

/-- A `ThreadBasedCoro`, with the number of times that its target suspends and of the segments that
it has run; all tokens of `_resume_q` are alike. -/
structure Coro where
  suspensions : ℕ
  phase : Phase
  schedQ : List Message
  resumeQ : ℕ
  isAlive : Bool
  ran : ℕ
  deriving DecidableEq, Repr

/-- Where the main thread is in `run`. -/
inductive Main where
  /-- Before `_thread.start()` of coroutine `i`. -/
  | starting (i : ℕ)
  /-- In `switch`: before `_resume_q.put`, and before `_sched_q.get`. -/
  | switching (i : ℕ)
  | getting (i : ℕ)
  | joining (i : ℕ)
  | returned
  deriving DecidableEq, Repr

/-- The scheduler and the coroutines. -/
structure State where
  main : Main
  coro : ℕ → Coro

/-- Who moves next. -/
inductive Action where
  | main
  | coro (i : ℕ)

/-- What a step shows. -/
inductive Event where
  | ran (i k : ℕ)
  | internal
  deriving DecidableEq, Repr

/-- The next step of the thread of a coroutine. -/
def Coro.step (c : Coro) (i : ℕ) : Option (Event × Coro) :=
  match c.phase with
  | .unstarted => none
  | .segment k =>
      if k < c.suspensions then
        some (.ran i k, { c with phase := .suspends k, ran := c.ran + 1 })
      else some (.ran i k, { c with phase := .targetDone, ran := c.ran + 1 })
  | .suspends k =>
      some (.internal, { c with phase := .waits (k + 1), schedQ := c.schedQ ++ [.suspended] })
  | .waits k =>
      match c.resumeQ with
      | 0 => none
      | tokens + 1 => some (.internal, { c with phase := .segment k, resumeQ := tokens })
  | .targetDone => some (.internal, { c with phase := .runDone, schedQ := c.schedQ ++ [.done] })
  | .runDone => some (.internal, { c with phase := .stopping, schedQ := c.schedQ ++ [.done] })
  | .stopping => some (.internal, { c with phase := .finished, isAlive := false })
  | .finished => none

namespace State

/-- The scheduler with coroutines that suspend so many times. -/
def start (suspensions : List ℕ) : State where
  main := .starting 0
  coro i := ⟨suspensions.getD i 0, .unstarted, [], 0, true, 0⟩

/-- Coroutine `i` goes on. -/
def setCoro (s : State) (i : ℕ) (c : Coro) : State :=
  { s with coro := Function.update s.coro i c }

/-- `run` of the scheduler with `n` coroutines, and `start` and `switch`. -/
def mainStep (n : ℕ) (s : State) : Option State :=
  match s.main with
  | .starting i =>
      if i < n then
        some ({ s with main := .switching i }.setCoro i { s.coro i with phase := .segment 0 })
      else some { s with main := .joining 0 }
  | .switching i =>
      some ({ s with main := .getting i }.setCoro i
        { s.coro i with resumeQ := (s.coro i).resumeQ + 1 })
  | .getting i =>
      match (s.coro i).schedQ with
      | [] => none
      | _ :: rest =>
          some ({ s with main := .starting (i + 1) }.setCoro i { s.coro i with schedQ := rest })
  | .joining i =>
      if i < n then
        if (s.coro i).phase = .finished then some { s with main := .joining (i + 1) } else none
      else some { s with main := .returned }
  | .returned => none

/-- The next step of the scheduler or of a coroutine. -/
def step (n : ℕ) (s : State) : Action → Option (Event × State)
  | .main => (s.mainStep n).map fun s' => (.internal, s')
  | .coro i => ((s.coro i).step i).map fun r => (r.1, s.setCoro i r.2)

/-- The main thread waits in `switch` or in `join`. -/
def MainWaits (n : ℕ) (s : State) : Prop :=
  (∃ i, s.main = .getting i ∧ (s.coro i).schedQ = []) ∨
    ∃ i, s.main = .joining i ∧ i < n ∧ (s.coro i).phase ≠ .finished

/-- Coroutine `i` waits on its empty `_resume_q`. -/
def CoroWaits (s : State) (i : ℕ) : Prop :=
  (∃ k, (s.coro i).phase = .waits k) ∧ (s.coro i).resumeQ = 0

/-- The run is not stuck, and once nothing can move every coroutine has run all its segments. -/
structure Progress (suspensions : List ℕ) (s : State) : Prop where
  not_stuck : ¬ (s.MainWaits suspensions.length ∧
    ∀ i < suspensions.length, (s.coro i).phase ≠ .finished → s.CoroWaits i)
  complete : (∀ a, s.step suspensions.length a = none) →
    ∀ i < suspensions.length, (s.coro i).ran = suspensions.getD i 0 + 1

end State

/-! ## One coroutine -/

section Counts

/-- The tokens that the thread has taken. -/
def Phase.consumed (suspensions : ℕ) : Phase → ℕ
  | unstarted => 0
  | segment k | suspends k => k
  | waits k => k - 1
  | targetDone | runDone | stopping | finished => suspensions

/-- The messages that it has put. -/
def Phase.produced (suspensions : ℕ) : Phase → ℕ
  | unstarted => 0
  | segment k | suspends k | waits k => k
  | targetDone => suspensions
  | runDone => suspensions + 1
  | stopping | finished => suspensions + 2

/-- The segments that it has run. -/
def Phase.segments (suspensions : ℕ) : Phase → ℕ
  | unstarted => 0
  | segment k | waits k => k
  | suspends k => k + 1
  | targetDone | runDone | stopping | finished => suspensions + 1

/-- The phase is one of a coroutine with so many suspensions. -/
def Phase.InRange (suspensions : ℕ) : Phase → Prop
  | segment k => k ≤ suspensions
  | suspends k => k < suspensions
  | waits k => 1 ≤ k ∧ k ≤ suspensions
  | _ => True

/-- The steps that are left to the thread, once it has all its tokens. -/
def Phase.left (suspensions : ℕ) : Phase → ℕ
  | unstarted => 3 * suspensions + 5
  | segment k => 3 * (suspensions - k) + 4
  | suspends k => 3 * (suspensions - k) + 3
  | waits k => 3 * (suspensions - k) + 5
  | targetDone => 3
  | runDone => 2
  | stopping => 1
  | finished => 0

/-- So many tokens have been put for the thread, and so many messages been taken from it. -/
structure Coro.Ok (tokens taken : ℕ) (c : Coro) : Prop where
  inRange : c.phase.InRange c.suspensions
  consumed : c.phase.consumed c.suspensions + c.resumeQ = tokens
  produced : c.phase.produced c.suspensions = taken + c.schedQ.length
  ran : c.ran = c.phase.segments c.suspensions

variable {tokens taken i : ℕ} {c c' : Coro} {e : Event}

/-- The thread keeps its counts, and comes closer to its end. -/
theorem Coro.Ok.step (hc : c.Ok tokens taken) (hs : c.step i = some (e, c')) :
    c'.Ok tokens taken ∧ c'.suspensions = c.suspensions ∧ c'.phase ≠ .unstarted ∧
      c'.phase.left c.suspensions < c.phase.left c.suspensions := by
  obtain ⟨suspensions, phase, schedQ, resumeQ, isAlive, ran⟩ := c
  obtain ⟨hrange, hconsumed, hproduced, hran⟩ := hc
  rw [Coro.step] at hs
  cases phase with
  | unstarted => cases hs
  | segment k =>
      simp only [Phase.InRange, Phase.consumed] at hrange hconsumed
      simp only [Phase.produced, Phase.segments] at hproduced hran
      dsimp only at hs
      split_ifs at hs with hlt
      · cases hs
        refine ⟨⟨hlt, hconsumed, hproduced, congrArg (· + 1) hran⟩, rfl, by simp, ?_⟩
        simp only [Phase.left]
        omega
      · -- it was the last segment
        obtain rfl : k = suspensions := by omega
        cases hs
        refine ⟨⟨trivial, hconsumed, hproduced, congrArg (· + 1) hran⟩, rfl, by simp, ?_⟩
        simp only [Phase.left]
        omega
  | suspends k =>
      cases hs
      simp only [Phase.InRange, Phase.consumed] at hrange hconsumed
      simp only [Phase.produced, Phase.segments] at hproduced hran
      refine ⟨⟨⟨Nat.le_add_left 1 k, hrange⟩, hconsumed, ?_, hran⟩, rfl, by simp, ?_⟩
      · simp only [Phase.produced, List.length_append, List.length_singleton]
        omega
      · simp only [Phase.left]
        omega
  | waits k =>
      simp only [Phase.InRange, Phase.consumed] at hrange hconsumed
      simp only [Phase.produced, Phase.segments] at hproduced hran
      dsimp only at hs
      split at hs
      · cases hs
      · cases hs
        refine ⟨⟨hrange.2, ?_, hproduced, hran⟩, rfl, by simp, ?_⟩
        · simp only [Phase.consumed]
          omega
        · simp only [Phase.left]
          omega
  | targetDone =>
      cases hs
      refine ⟨⟨trivial, hconsumed, ?_, hran⟩, rfl, by simp, Nat.lt_succ_self 2⟩
      simp only [Phase.produced, List.length_append, List.length_singleton] at hproduced ⊢
      omega
  | runDone =>
      cases hs
      refine ⟨⟨trivial, hconsumed, ?_, hran⟩, rfl, by simp, Nat.lt_succ_self 1⟩
      simp only [Phase.produced, List.length_append, List.length_singleton] at hproduced ⊢
      omega
  | stopping =>
      cases hs
      exact ⟨⟨trivial, hconsumed, hproduced, hran⟩, rfl, by simp, Nat.zero_lt_one⟩
  | finished => cases hs

/-- Only a thread that waits for a token cannot move. -/
theorem Coro.step_eq_none (hs : c.step i = none) :
    c.phase = .unstarted ∨ c.phase = .finished ∨ (∃ k, c.phase = .waits k) ∧ c.resumeQ = 0 := by
  rw [Coro.step] at hs
  cases hphase : c.phase with
  | unstarted => exact Or.inl rfl
  | finished => exact Or.inr (Or.inl rfl)
  | waits k =>
      rw [hphase] at hs
      dsimp only at hs
      split at hs
      · next hempty => exact Or.inr (Or.inr ⟨⟨k, rfl⟩, hempty⟩)
      · cases hs
  | segment k =>
      rw [hphase] at hs
      dsimp only at hs
      split_ifs at hs
  | _ =>
      rw [hphase] at hs
      cases hs

end Counts

/-! ## The scheduler -/

/-- The coroutines that have been started, that have had their token, and that have answered. -/
def Main.started (n : ℕ) : Main → ℕ
  | starting i => i
  | switching i | getting i => i + 1
  | joining _ | returned => n

/-- How many coroutines have been switched to. -/
def Main.switched (n : ℕ) : Main → ℕ
  | starting i | switching i => i
  | getting i => i + 1
  | joining _ | returned => n

/-- How many messages the scheduler has received. -/
def Main.gotten (n : ℕ) : Main → ℕ
  | starting i | switching i | getting i => i
  | joining _ | returned => n

/-- The steps that are left to the main thread. -/
def Main.left (n : ℕ) : Main → ℕ
  | starting i => 3 * (n - i) + n + 2
  | switching i => 3 * (n - i) + n + 1
  | getting i => 3 * (n - i) + n
  | joining i => n - i + 1
  | returned => 0

namespace State

/-- Each coroutine is in order, and those before the one that is being joined have finished. -/
structure SchedulerOk (suspensions : List ℕ) (s : State) : Prop where
  suspensions_eq : ∀ i, (s.coro i).suspensions = suspensions.getD i 0
  coro : ∀ i, (s.coro i).Ok (if i < s.main.switched suspensions.length then 1 else 0)
    (if i < s.main.gotten suspensions.length then 1 else 0)
  unstarted : ∀ i, (s.coro i).phase = .unstarted ↔ s.main.started suspensions.length ≤ i
  starting : ∀ i, s.main = .starting i → i ≤ suspensions.length
  switching : ∀ i, s.main = .switching i ∨ s.main = .getting i → i < suspensions.length
  joining : ∀ j, s.main = .joining j → ∀ i < j, (s.coro i).phase = .finished
  returned : s.main = .returned → ∀ i < suspensions.length, (s.coro i).phase = .finished

variable {suspensions : List ℕ} {s s' : State} {e : Event} {h : List Event}

/-- At the start no thread runs. -/
theorem SchedulerOk.start : SchedulerOk suspensions (start suspensions) where
  suspensions_eq _ := rfl
  coro i := by
    refine ⟨trivial, ?_, ?_, rfl⟩
    · simp [State.start, Phase.consumed, Main.switched]
    · simp [State.start, Phase.produced, Main.gotten]
  unstarted i := iff_of_true rfl (Nat.zero_le i)
  starting i hmain := by
    cases hmain
    exact Nat.zero_le _
  switching i hmain := by rcases hmain with h | h <;> cases h
  joining j hmain := by cases hmain
  returned hmain := by cases hmain

/-- The thread of a coroutine moves. -/
theorem SchedulerOk.coroStep (ho : SchedulerOk suspensions s) {i : ℕ} {c : Coro}
    (hs : (s.coro i).step i = some (e, c)) : SchedulerOk suspensions (s.setCoro i c) := by
  obtain ⟨hok, hsuspensions, hstarted, -⟩ := (ho.coro i).step hs
  have hbefore : (s.coro i).phase ≠ .unstarted ∧ (s.coro i).phase ≠ .finished := by
    constructor
    · intro hphase
      rw [Coro.step, hphase] at hs
      cases hs
    · intro hphase
      rw [Coro.step, hphase] at hs
      cases hs
  have hself : (s.setCoro i c).coro i = c := Function.update_self _ _ _
  have hother : ∀ j, j ≠ i → (s.setCoro i c).coro j = s.coro j := fun j hj =>
    Function.update_of_ne hj _ _
  have hfinished : ∀ j, (s.coro j).phase = .finished →
      ((s.setCoro i c).coro j).phase = .finished := by
    intro j hphase
    rw [hother j fun hj => hbefore.2 (hj ▸ hphase)]
    exact hphase
  refine ⟨fun j => ?_, fun j => ?_, fun j => ?_, ho.starting, ho.switching,
    fun j hmain k hk => hfinished k (ho.joining j hmain k hk),
    fun hmain k hk => hfinished k (ho.returned hmain k hk)⟩
  · by_cases hj : j = i
    · rw [hj, hself, hsuspensions]
      exact ho.suspensions_eq i
    · rw [hother j hj]
      exact ho.suspensions_eq j
  · by_cases hj : j = i
    · rw [hj, hself]
      exact hok
    · rw [hother j hj]
      exact ho.coro j
  · by_cases hj : j = i
    · rw [hj, hself]
      exact iff_of_false hstarted fun hle => hbefore.1 ((ho.unstarted i).mpr hle)
    · rw [hother j hj]
      exact ho.unstarted j

/-- The main thread goes on from one place before the joins to another, and changes coroutine
`i`. -/
theorem SchedulerOk.move (ho : SchedulerOk suspensions s) {i : ℕ} {c : Coro} {m : Main}
    (hsuspensions : c.suspensions = (s.coro i).suspensions)
    (hok : c.Ok (if i < m.switched suspensions.length then 1 else 0)
      (if i < m.gotten suspensions.length then 1 else 0))
    (hswitched : ∀ j, j ≠ i →
      (j < m.switched suspensions.length ↔ j < s.main.switched suspensions.length))
    (hgotten : ∀ j, j ≠ i →
      (j < m.gotten suspensions.length ↔ j < s.main.gotten suspensions.length))
    (hstarted : ∀ j, j ≠ i →
      (m.started suspensions.length ≤ j ↔ s.main.started suspensions.length ≤ j))
    (hunstarted : c.phase = .unstarted ↔ m.started suspensions.length ≤ i)
    (hstarting : ∀ j, m = .starting j → j ≤ suspensions.length)
    (hswitching : ∀ j, m = .switching j ∨ m = .getting j → j < suspensions.length)
    (hjoining : ∀ j, m ≠ .joining j) (hreturned : m ≠ .returned) :
    SchedulerOk suspensions ({ s with main := m }.setCoro i c) := by
  generalize hs' : ({ s with main := m }.setCoro i c) = s'
  have hmain : s'.main = m := by
    rw [← hs']
    rfl
  have hself : s'.coro i = c := by
    rw [← hs']
    exact Function.update_self _ _ _
  have hother : ∀ j, j ≠ i → s'.coro j = s.coro j := by
    intro j hj
    rw [← hs']
    exact Function.update_of_ne hj _ _
  refine ⟨fun j => ?_, fun j => ?_, fun j => ?_, ?_, ?_, fun j hj => ?_, fun hj => ?_⟩
  · by_cases hj : j = i
    · rw [hj, hself, hsuspensions]
      exact ho.suspensions_eq i
    · rw [hother j hj]
      exact ho.suspensions_eq j
  · rw [hmain]
    by_cases hj : j = i
    · rw [hj, hself]
      exact hok
    · simp only [hother j hj, hswitched j hj, hgotten j hj]
      exact ho.coro j
  · rw [hmain]
    by_cases hj : j = i
    · rw [hj, hself]
      exact hunstarted
    · rw [hother j hj, hstarted j hj]
      exact ho.unstarted j
  · rw [hmain]
    exact hstarting
  · rw [hmain]
    exact hswitching
  · exact absurd (hmain.symm.trans hj) (hjoining j)
  · exact absurd (hmain.symm.trans hj) hreturned

/-- The scheduler starts a coroutine. -/
theorem SchedulerOk.starts (ho : SchedulerOk suspensions s) {i : ℕ}
    (hmain : s.main = .starting i) (hlt : i < suspensions.length) :
    SchedulerOk suspensions
      ({ s with main := .switching i }.setCoro i { s.coro i with phase := .segment 0 }) := by
  have hphase : (s.coro i).phase = .unstarted := by
    rw [ho.unstarted, hmain]
    exact le_rfl
  have hc := ho.coro i
  obtain ⟨-, hconsumed, hproduced, hran⟩ := hc
  rw [hphase, hmain] at hconsumed hproduced
  rw [hphase] at hran
  refine ho.move rfl ⟨Nat.zero_le _, hconsumed, hproduced, hran⟩ ?_ ?_ ?_ ?_ ?_ ?_ ?_ ?_
  · simp [hmain, Main.switched]
  · simp [hmain, Main.gotten]
  · intro j hj
    simp only [hmain, Main.started]
    omega
  · simp [Main.started]
  · exact fun j hj => by cases hj
  · rintro j (hj | hj) <;> cases hj
    exact hlt
  · exact fun j => Main.noConfusion
  · exact Main.noConfusion

/-- The scheduler switches to a coroutine. -/
theorem SchedulerOk.switches (ho : SchedulerOk suspensions s) {i : ℕ}
    (hmain : s.main = .switching i) :
    SchedulerOk suspensions ({ s with main := .getting i }.setCoro i
      { s.coro i with resumeQ := (s.coro i).resumeQ + 1 }) := by
  have hlt := ho.switching i (Or.inl hmain)
  obtain ⟨hrange, hconsumed, hproduced, hran⟩ := ho.coro i
  rw [hmain] at hconsumed hproduced
  simp only [Main.switched, lt_irrefl, if_false] at hconsumed
  refine ho.move rfl ⟨hrange, ?_, hproduced, hran⟩ ?_ ?_ ?_ ?_ ?_ ?_ ?_ ?_
  · simp only [Main.switched, Nat.lt_succ_self, if_true]
    omega
  · intro j hj
    simp only [hmain, Main.switched]
    omega
  · simp [hmain, Main.gotten]
  · simp [hmain, Main.started]
  · rw [ho.unstarted, hmain]
    exact Iff.rfl
  · exact fun j hj => by cases hj
  · rintro j (hj | hj) <;> cases hj
    exact hlt
  · exact fun j => Main.noConfusion
  · exact Main.noConfusion

/-- The scheduler gets a message. -/
theorem SchedulerOk.gets (ho : SchedulerOk suspensions s) {i : ℕ} {m : Message}
    {rest : List Message} (hmain : s.main = .getting i) (hqueue : (s.coro i).schedQ = m :: rest) :
    SchedulerOk suspensions ({ s with main := .starting (i + 1) }.setCoro i
      { s.coro i with schedQ := rest }) := by
  have hlt := ho.switching i (Or.inr hmain)
  obtain ⟨hrange, hconsumed, hproduced, hran⟩ := ho.coro i
  rw [hmain] at hconsumed hproduced
  simp only [Main.gotten, lt_irrefl, if_false, hqueue, List.length_cons] at hproduced
  refine ho.move rfl ⟨hrange, hconsumed, ?_, hran⟩ ?_ ?_ ?_ ?_ ?_ ?_ ?_ ?_
  · simp only [Main.gotten, Nat.lt_succ_self, if_true]
    omega
  · simp [hmain, Main.switched]
  · intro j hj
    simp only [hmain, Main.gotten]
    omega
  · simp [hmain, Main.started]
  · rw [ho.unstarted, hmain]
    exact Iff.rfl
  · intro j hj
    cases hj
    exact hlt
  · rintro j (hj | hj) <;> cases hj
  · exact fun j => Main.noConfusion
  · exact Main.noConfusion

/-- All coroutines have been started: the main thread joins them. -/
theorem SchedulerOk.joins (ho : SchedulerOk suspensions s) {m : Main}
    (hswitched : s.main.switched suspensions.length = suspensions.length)
    (hgotten : s.main.gotten suspensions.length = suspensions.length)
    (hstarted : s.main.started suspensions.length = suspensions.length)
    (hm : (∃ j, m = .joining j) ∨ m = .returned)
    (hjoining : ∀ j, m = .joining j → ∀ i < j, (s.coro i).phase = .finished)
    (hreturned : m = .returned → ∀ i < suspensions.length, (s.coro i).phase = .finished) :
    SchedulerOk suspensions { s with main := m } := by
  have hsame : m.switched suspensions.length = suspensions.length ∧
      m.gotten suspensions.length = suspensions.length ∧
      m.started suspensions.length = suspensions.length := by
    rcases hm with ⟨j, rfl⟩ | rfl
    · exact ⟨rfl, rfl, rfl⟩
    · exact ⟨rfl, rfl, rfl⟩
  refine ⟨ho.suspensions_eq, fun i => ?_, fun i => ?_, fun i h => ?_, fun i h => ?_, hjoining,
    hreturned⟩
  · have hc := ho.coro i
    rw [hswitched, hgotten] at hc
    simp only [hsame]
    exact hc
  · have hi := ho.unstarted i
    rw [hstarted] at hi
    simp only [hsame]
    exact hi
  · rcases hm with ⟨j, rfl⟩ | rfl <;> cases h
  · rcases hm with ⟨j, rfl⟩ | rfl <;> rcases h with h | h <;> cases h

/-- What the scheduler does. -/
theorem SchedulerOk.mainStep (ho : SchedulerOk suspensions s)
    (hs : s.mainStep suspensions.length = some s') : SchedulerOk suspensions s' := by
  rw [State.mainStep] at hs
  split at hs
  · next i hmain =>
    split_ifs at hs with hlt
    · cases hs
      exact ho.starts hmain hlt
    · cases hs
      obtain rfl : i = suspensions.length :=
        Nat.le_antisymm (ho.starting i hmain) (Nat.not_lt.mp hlt)
      refine ho.joins (by rw [hmain]; rfl) (by rw [hmain]; rfl) (by rw [hmain]; rfl)
        (Or.inl ⟨0, rfl⟩) (fun j hj k hk => ?_) fun h => by cases h
      cases hj
      exact absurd hk (Nat.not_lt_zero k)
  · next i hmain =>
    cases hs
    exact ho.switches hmain
  · next i hmain =>
    split at hs
    · cases hs
    · next m rest hqueue =>
      cases hs
      exact ho.gets hmain hqueue
  · next i hmain =>
    split_ifs at hs with hlt hfinished
    · cases hs
      refine ho.joins (by rw [hmain]; rfl) (by rw [hmain]; rfl) (by rw [hmain]; rfl)
        (Or.inl ⟨i + 1, rfl⟩) (fun j hj k hk => ?_) fun h => by cases h
      cases hj
      rcases Nat.lt_succ_iff_lt_or_eq.mp hk with hk | rfl
      · exact ho.joining i hmain k hk
      · exact hfinished
    · cases hs
      refine ho.joins (by rw [hmain]; rfl) (by rw [hmain]; rfl) (by rw [hmain]; rfl)
        (Or.inr rfl) (fun j hj => by cases hj) fun _ k hk => ?_
      exact ho.joining i hmain k (hk.trans_le (Nat.not_lt.mp hlt))
  · cases hs

/-- **The step lemma**. -/
theorem SchedulerOk.step {a : Action} (ho : SchedulerOk suspensions s)
    (hs : s.step suspensions.length a = some (e, s')) : SchedulerOk suspensions s' := by
  cases a with
  | main =>
      obtain ⟨s₁, hmain, heq⟩ := Option.map_eq_some_iff.mp hs
      cases heq
      exact ho.mainStep hmain
  | coro i =>
      obtain ⟨⟨e₁, c⟩, hcoro, heq⟩ := Option.map_eq_some_iff.mp hs
      cases heq
      exact ho.coroStep hcoro

/-- So it is in every run. -/
theorem run_schedulerOk
    (hr : Run (step suspensions.length) anyStep (State.start suspensions) h s) :
    SchedulerOk suspensions s :=
  Run.invariant (fun _ s => SchedulerOk suspensions s) .start (fun _ _ _ _ _ ho _ hs => ho.step hs)
    hr

/-! ## One token is enough for one suspension -/

/-- While the main thread waits, some coroutine can move. -/
theorem SchedulerOk.exists_moves (ho : SchedulerOk suspensions s) (hle : ∀ k ∈ suspensions, k ≤ 1)
    (hwaits : s.MainWaits suspensions.length) :
    ∃ i < suspensions.length, (s.coro i).phase ≠ .unstarted ∧ (s.coro i).phase ≠ .finished ∧
      ¬ s.CoroWaits i := by
  rcases hwaits with ⟨i, hmain, hempty⟩ | ⟨i, hmain, hlt, hunfinished⟩
  · -- it has put no message yet
    have hlt := ho.switching i (Or.inr hmain)
    obtain ⟨hrange, -, hproduced, -⟩ := ho.coro i
    simp only [hmain, Main.gotten, lt_irrefl, if_false, hempty, List.length_nil] at hproduced
    refine ⟨i, hlt, ?_, fun hphase => ?_, ?_⟩
    · rw [Ne, ho.unstarted, hmain]
      exact Nat.not_succ_le_self i
    · rw [hphase] at hproduced
      cases hproduced
    · rintro ⟨⟨k, hphase⟩, -⟩
      rw [hphase] at hproduced hrange
      simp only [Phase.produced, Phase.InRange] at hproduced hrange
      omega
  · -- its token is for its only suspension
    obtain ⟨hrange, hconsumed, -, -⟩ := ho.coro i
    refine ⟨i, hlt, ?_, hunfinished, ?_⟩
    · rw [Ne, ho.unstarted, hmain]
      exact Nat.not_le.mpr hlt
    · rintro ⟨⟨k, hphase⟩, hnone⟩
      have hone : (s.coro i).suspensions ≤ 1 := by
        rw [ho.suspensions_eq i, List.getD_eq_getElem _ _ hlt]
        exact hle _ (List.getElem_mem hlt)
      rw [hphase] at hrange hconsumed
      simp only [hmain, Main.switched, hlt, if_true, hnone, Phase.consumed] at hconsumed
      simp only [Phase.InRange] at hrange
      omega

/-- The main thread can move unless it waits or has returned. -/
theorem mainStep_eq_none {n : ℕ} (hs : s.mainStep n = none) :
    s.MainWaits n ∨ s.main = .returned := by
  rw [State.mainStep] at hs
  split at hs
  · split_ifs at hs
  · cases hs
  · next i hmain =>
    split at hs
    · next hempty => exact Or.inl (Or.inl ⟨i, hmain, hempty⟩)
    · cases hs
  · next i hmain =>
    split_ifs at hs with hlt hfinished
    exact Or.inl (Or.inr ⟨i, hmain, hlt, hfinished⟩)
  · next hmain => exact Or.inr hmain

/-- With one suspension at most everyone gets on. -/
theorem SchedulerOk.progress (ho : SchedulerOk suspensions s)
    (hle : ∀ k ∈ suspensions, k ≤ 1) : Progress suspensions s := by
  constructor
  · rintro ⟨hwaits, hall⟩
    obtain ⟨i, hlt, -, hunfinished, hmoves⟩ := ho.exists_moves hle hwaits
    exact hmoves (hall i hlt hunfinished)
  · intro hnone
    have hmain : s.mainStep suspensions.length = none := Option.map_eq_none_iff.mp (hnone .main)
    rcases mainStep_eq_none hmain with hwaits | hreturned
    · obtain ⟨i, -, hstarted, hunfinished, hmoves⟩ := ho.exists_moves hle hwaits
      have hcoro : (s.coro i).step i = none := Option.map_eq_none_iff.mp (hnone (.coro i))
      rcases Coro.step_eq_none hcoro with hphase | hphase | hwaits
      · exact absurd hphase hstarted
      · exact absurd hphase hunfinished
      · exact absurd hwaits hmoves
    · intro i hlt
      rw [(ho.coro i).ran, ho.returned hreturned i hlt, ← ho.suspensions_eq i]
      rfl

/-! ## One token is not enough for two -/

/-- A coroutine that has run all its segments has taken a token for each suspension. -/
theorem SchedulerOk.le_of_ran (ho : SchedulerOk suspensions s) {i : ℕ}
    (hran : (s.coro i).ran = suspensions.getD i 0 + 1) : suspensions.getD i 0 ≤ 1 := by
  obtain ⟨hrange, hconsumed, -, hsegments⟩ := ho.coro i
  rw [← ho.suspensions_eq i] at hran ⊢
  have htokens : (s.coro i).phase.consumed (s.coro i).suspensions ≤ 1 := by
    split_ifs at hconsumed <;> omega
  rw [hran] at hsegments
  cases hphase : (s.coro i).phase with
  | unstarted =>
      rw [hphase] at hsegments
      cases hsegments
  | segment k =>
      rw [hphase] at hrange hsegments
      simp only [Phase.InRange, Phase.segments] at hrange hsegments
      omega
  | suspends k =>
      rw [hphase] at hrange hsegments
      simp only [Phase.InRange, Phase.segments] at hrange hsegments
      omega
  | waits k =>
      rw [hphase] at hrange hsegments
      simp only [Phase.InRange, Phase.segments] at hrange hsegments
      omega
  | _ =>
      rw [hphase] at htokens
      exact htokens

/-- The steps that are left to all threads. -/
def left (n : ℕ) (s : State) : ℕ :=
  s.main.left n + ∑ i ∈ Finset.range n, (s.coro i).phase.left (s.coro i).suspensions

/-- No more are started than there are. -/
theorem SchedulerOk.started_le (ho : SchedulerOk suspensions s) :
    s.main.started suspensions.length ≤ suspensions.length := by
  cases hmain : s.main with
  | starting i => exact ho.starting i hmain
  | switching i => exact ho.switching i (Or.inl hmain)
  | getting i => exact ho.switching i (Or.inr hmain)
  | joining i => exact le_rfl
  | returned => exact le_rfl

/-- The scheduler goes on. -/
theorem SchedulerOk.main_left_lt (ho : SchedulerOk suspensions s)
    (hs : s.mainStep suspensions.length = some s') :
    s'.main.left suspensions.length < s.main.left suspensions.length := by
  rw [State.mainStep] at hs
  split at hs
  · next i hmain =>
    split_ifs at hs with hlt
    · cases hs
      simp only [hmain, setCoro, Main.left]
      omega
    · cases hs
      simp only [hmain, Main.left]
      omega
  · next i hmain =>
    cases hs
    simp only [hmain, setCoro, Main.left]
    omega
  · next i hmain =>
    split at hs
    · cases hs
    · have hlt := ho.switching i (Or.inr hmain)
      cases hs
      simp only [hmain, setCoro, Main.left]
      omega
  · next i hmain =>
    split_ifs at hs with hlt hfinished
    · cases hs
      simp only [hmain, Main.left]
      omega
    · cases hs
      simp only [hmain, Main.left]
      omega
  · cases hs

/-- The main thread lets no coroutine go back. -/
theorem SchedulerOk.coro_left_le (ho : SchedulerOk suspensions s)
    (hs : s.mainStep suspensions.length = some s') (i : ℕ) :
    (s'.coro i).phase.left (s'.coro i).suspensions ≤
      (s.coro i).phase.left (s.coro i).suspensions := by
  have hupdate : ∀ (j : ℕ) (c : Coro), c.phase.left c.suspensions ≤
      (s.coro j).phase.left (s.coro j).suspensions →
      (Function.update s.coro j c i).phase.left (Function.update s.coro j c i).suspensions ≤
        (s.coro i).phase.left (s.coro i).suspensions := by
    intro j c hc
    by_cases hi : i = j
    · rw [hi, Function.update_self]
      exact hc
    · rw [Function.update_of_ne hi]
  rw [State.mainStep] at hs
  split at hs
  · next j hmain =>
    split_ifs at hs with hlt
    · cases hs
      refine hupdate j _ ?_
      rw [(ho.unstarted j).mpr (by rw [hmain]; exact le_rfl)]
      simp only [Phase.left]
      omega
    · cases hs
      exact le_rfl
  · cases hs
    exact hupdate _ _ le_rfl
  · split at hs
    · cases hs
    · cases hs
      exact hupdate _ _ le_rfl
  · split_ifs at hs
    · cases hs
      exact le_rfl
    · cases hs
      exact le_rfl
  · cases hs

/-- Every step leaves less to be done. -/
theorem SchedulerOk.left_lt {a : Action} (ho : SchedulerOk suspensions s)
    (hs : s.step suspensions.length a = some (e, s')) :
    s'.left suspensions.length < s.left suspensions.length := by
  cases a with
  | main =>
      obtain ⟨s₁, hmain, heq⟩ := Option.map_eq_some_iff.mp hs
      cases heq
      have hlt := ho.main_left_lt hmain
      have hle : ∑ i ∈ Finset.range suspensions.length,
          (s'.coro i).phase.left (s'.coro i).suspensions ≤
            ∑ i ∈ Finset.range suspensions.length,
              (s.coro i).phase.left (s.coro i).suspensions :=
        Finset.sum_le_sum fun i _ => ho.coro_left_le hmain i
      exact Nat.add_lt_add_of_lt_of_le hlt hle
  | coro i =>
      obtain ⟨⟨e₁, c⟩, hcoro, heq⟩ := Option.map_eq_some_iff.mp hs
      cases heq
      obtain ⟨-, hsuspensions, -, hlt⟩ := (ho.coro i).step hcoro
      have hself : (s.setCoro i c).coro i = c := Function.update_self _ _ _
      have hother : ∀ j, j ≠ i → (s.setCoro i c).coro j = s.coro j := fun j hj =>
        Function.update_of_ne hj _ _
      refine Nat.add_lt_add_left (Finset.sum_lt_sum (fun j _ => ?_) ⟨i, ?_, ?_⟩) _
      · by_cases hj : j = i
        · rw [hj, hself, hsuspensions]
          exact hlt.le
        · rw [hother j hj]
      · rw [Finset.mem_range]
        by_contra hge
        have hphase := (ho.unstarted i).mpr (ho.started_le.trans (Nat.not_lt.mp hge))
        rw [Coro.step, hphase] at hcoro
        cases hcoro
      · rw [hself, hsuspensions]
        exact hlt

/-- **Progress.**  No run of the scheduler is ever stuck, and every coroutine runs all its segments,
if and only if no coroutine suspends more than once. -/
theorem progress_iff (suspensions : List ℕ) :
    (∀ h s, Run (step suspensions.length) anyStep (State.start suspensions) h s →
      Progress suspensions s) ↔ ∀ k ∈ suspensions, k ≤ 1 := by
  refine ⟨fun hall k hk => ?_, fun hle h s hr => (run_schedulerOk hr).progress hle⟩
  have hlowers : ∀ s a e s', SchedulerOk suspensions s → anyStep s a →
      step suspensions.length s a = some (e, s') →
      SchedulerOk suspensions s' ∧ left suspensions.length s' < left suspensions.length s :=
    fun s a e s' ho _ hs => ⟨ho.step hs, ho.left_lt hs⟩
  obtain ⟨h, s, hr, hstuck⟩ := Run.exists_stuck _ _ hlowers SchedulerOk.start
  obtain ⟨i, hlt, hi⟩ := List.mem_iff_getElem.mp hk
  have hran := (hall h s hr).complete (fun a => hstuck a trivial) i hlt
  have hone := (run_schedulerOk hr).le_of_ran hran
  rw [List.getD_eq_getElem _ _ hlt, hi] at hone
  exact hone

/-- A coroutine that suspends twice, as that of the demo: the main thread joins it while it waits
for a second token. -/
theorem not_progress : ¬ ∀ (suspensions : List ℕ) (h : List Event) (s : State),
    Run (step suspensions.length) anyStep (State.start suspensions) h s →
    Progress suspensions s := by
  intro hall
  have hr := run_of_replay (step [2].length) (s := State.start [2])
    [.main, .main, .coro 0, .coro 0, .coro 0, .coro 0, .coro 0, .main, .main] rfl
  refine (hall [2] _ _ hr).not_stuck ⟨Or.inr ⟨0, rfl, by decide, by decide⟩, fun i hi _ => ?_⟩
  obtain rfl : i = 0 := Nat.lt_one_iff.mp hi
  exact ⟨⟨2, rfl⟩, rfl⟩

end State

end ThreadScheduler

end Coroutine

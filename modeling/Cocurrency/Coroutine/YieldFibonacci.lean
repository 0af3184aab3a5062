/-
# Fibonacci generators in Python (`python/stackless_coroutine/yield_fibonacci.py`)

`fibonacci_yield(n)` yields the first `n` Fibonacci numbers (`fibonacciYield_eq`).

`fibonacci_with_send` goes on with the pair it is sent.  It is a machine whose operations are
`send(None)`, which is `next()`, and `send((p, q))`.

* `Progress` : what the generator is for, a sequence of which some terms have been returned;
* `results_eq` : its answers to any calls are those of its progress;
* `Resets`, `Continues` : what a call of `send((p, q))` is meant to do to the calls after it.

A `send((p, q))` returns the first term itself, so that the next `send(None)` returns the second.
-/
import Cocurrency.Lib.Generator
import Cocurrency.Lib.Machine
import Mathlib.Data.Int.Cast.Basic
import Mathlib.Data.Nat.Fib.Basic

namespace Coroutine

open Generator (Resumed Ending drain drain_of_states)

/-! ## The first `n` numbers -/

/-- The frame of `fibonacci_yield(n)`: not started, or suspended at `yield a` with `left` turns of
the loop to come. -/
inductive FibonacciYield where
  | created (n : ℤ)
  | suspended (a b : ℤ) (left : ℕ)
  deriving DecidableEq, Repr

namespace FibonacciYield

/-- The head of the loop. -/
def turn (a b : ℤ) : ℕ → Resumed ℤ Empty FibonacciYield
  | 0 => .returned
  | left + 1 => .yielded a (.suspended a b left)

/-- From one `yield` to the next. -/
def resume : FibonacciYield → Resumed ℤ Empty FibonacciYield
  | .created n => turn 0 1 n.toNat
  | .suspended a b left => turn b (a + b) left

/-- The frame after `i` items. -/
def state (n : ℤ) : ℕ → FibonacciYield
  | 0 => .created n
  | i + 1 => .suspended (Nat.fib i) (Nat.fib (i + 1)) (n.toNat - (i + 1))

/-- One call of `next()`. -/
theorem resume_state (n : ℤ) (i : ℕ) :
    (state n i).resume = turn (Nat.fib i) (Nat.fib (i + 1)) (n.toNat - i) := by
  cases i with
  | zero => rfl
  | succ i =>
      have hsum : (Nat.fib i : ℤ) + Nat.fib (i + 1) = Nat.fib (i + 2) := by
        rw [Nat.fib_add_two, Nat.cast_add]
      rw [state, resume, hsum]

end FibonacciYield

/-- `list(fibonacci_yield(n))`. -/
def fibonacciYield (n : ℤ) : List ℤ × Ending Empty :=
  drain FibonacciYield.resume (n.toNat + 1) (.created n)

/-- **Exact.**  The integers of Python have no width. -/
theorem fibonacciYield_eq (n : ℤ) :
    fibonacciYield n = ((List.range n.toNat).map fun i => (Nat.fib i : ℤ), .returned) := by
  refine drain_of_states (FibonacciYield.state n) _ (fun i hi => ?_) ?_
  · have hturns : n.toNat - i = n.toNat - (i + 1) + 1 := by omega
    rw [FibonacciYield.resume_state, hturns]
    rfl
  · rw [FibonacciYield.resume_state, Nat.sub_self]
    rfl

/-! ## A generator that is sent pairs -/

/-- The frame of `fibonacci_with_send()`: not started, or suspended at `received = yield a`. -/
inductive FibonacciWithSend where
  | created
  | suspended (a b : ℤ)
  deriving DecidableEq, Repr

/-- What a call of `send` comes to: the value yielded next, or the text of a `TypeError`. -/
abbrev Sent := Except String ℤ

namespace FibonacciWithSend

/-- The body of the loop after `received = yield a`: the new `a` and `b`. -/
def assign (a b : ℤ) : Option (ℤ × ℤ) → ℤ × ℤ
  | some received => (received.1, received.2)
  | none => (b, a + b)

/-- `send(value)`.  A generator that has not started accepts nothing but `None`, and stays as it
is otherwise. -/
def send : FibonacciWithSend → Option (ℤ × ℤ) → Sent × FibonacciWithSend
  | .created, none => (.ok 0, .suspended 0 1)
  | .created, some _ =>
      (.error "can't send non-None value to a just-started generator", .created)
  | .suspended a b, value =>
      let next := assign a b value
      (.ok next.1, .suspended next.1 next.2)

/-- The answers to the next `k` calls of `send(None)`, after some calls. -/
def resumes (calls : List (Option (ℤ × ℤ))) (k : ℕ) : List Sent :=
  Machine.results send (Machine.after send .created calls) (List.replicate k none)

end FibonacciWithSend

/-! ## Sequences in progress -/

/-- The sequence that starts with a pair, each later term the sum of the two before it. -/
def term (pair : ℤ × ℤ) : ℕ → ℤ
  | 0 => pair.1
  | 1 => pair.2
  | i + 2 => term pair i + term pair (i + 1)

@[simp] theorem term_zero (pair : ℤ × ℤ) : term pair 0 = pair.1 := rfl

@[simp] theorem term_one (pair : ℤ × ℤ) : term pair 1 = pair.2 := rfl

theorem term_add_two (pair : ℤ × ℤ) (i : ℕ) :
    term pair (i + 2) = term pair i + term pair (i + 1) := rfl

/-- A sequence, and how many of its terms have been returned. -/
structure Progress where
  pair : ℤ × ℤ
  returned : ℕ
  deriving DecidableEq, Repr

namespace Progress

/-- Nothing has been returned of the Fibonacci numbers. -/
def start : Progress := ⟨(0, 1), 0⟩

/-- A call returns the next term of the sequence, or the first one of a new sequence; before the
first term has been returned no other sequence is accepted. -/
def send (p : Progress) : Option (ℤ × ℤ) → Sent × Progress
  | none => (.ok (term p.pair p.returned), { p with returned := p.returned + 1 })
  | some pair =>
      if p.returned = 0 then
        (.error "can't send non-None value to a just-started generator", p)
      else (.ok pair.1, ⟨pair, 1⟩)

/-- The progress after some calls. -/
def after (calls : List (Option (ℤ × ℤ))) : Progress := Machine.after send start calls

end Progress

/-- The frame holds the term returned last and the one after it. -/
def FibonacciWithSend.Shows : FibonacciWithSend → Progress → Prop
  | .created, p => p = .start
  | .suspended a b, p =>
      ∃ i, p.returned = i + 1 ∧ a = term p.pair i ∧ b = term p.pair (i + 1)

namespace FibonacciWithSend

/-- One call keeps the frame in step with the progress, and has the answer of the progress. -/
theorem Shows.send {g : FibonacciWithSend} {p : Progress} (h : g.Shows p)
    (value : Option (ℤ × ℤ)) :
    (g.send value).1 = (p.send value).1 ∧ (g.send value).2.Shows (p.send value).2 := by
  cases g with
  | created =>
      cases h
      cases value with
      | none => exact ⟨rfl, 0, rfl, rfl, rfl⟩
      | some pair => exact ⟨rfl, rfl⟩
  | suspended a b =>
      obtain ⟨i, hreturned, rfl, rfl⟩ := h
      cases value with
      | none =>
          have hterm : term p.pair p.returned = term p.pair (i + 1) := by rw [hreturned]
          refine ⟨congrArg Except.ok hterm.symm, i + 1, congrArg (· + 1) hreturned, rfl, ?_⟩
          exact (term_add_two p.pair i).symm
      | some pair =>
          have hstarted : p.returned ≠ 0 := by rw [hreturned]; exact Nat.succ_ne_zero i
          have hsend : p.send (some pair) = (.ok pair.1, ⟨pair, 1⟩) := if_neg hstarted
          rw [hsend]
          exact ⟨rfl, 0, rfl, rfl, rfl⟩

/-- **The generator refines its progress.** -/
theorem results_eq (calls : List (Option (ℤ × ℤ))) :
    Machine.results send .created calls = Machine.results Progress.send .start calls ∧
      (Machine.after send .created calls).Shows (Progress.after calls) :=
  have hstart : Shows .created .start := rfl
  Machine.simulate Shows (fun _ _ value h => h.send value) hstart calls

end FibonacciWithSend

/-! ## Resets -/

/-- The sequence without its first term. -/
theorem term_succ (pair : ℤ × ℤ) (i : ℕ) :
    term pair (i + 1) = term (pair.2, pair.1 + pair.2) i := by
  induction i using Nat.twoStepInduction with
  | zero => rfl
  | one => rfl
  | more i ih ih' => rw [term_add_two, ih, ih', term_add_two]

/-- Two sequences agree on their first `k` terms just if they do so on the first two of these. -/
theorem forall_term_eq_iff (x y : ℤ × ℤ) (k : ℕ) :
    (∀ j < k, term x j = term y j) ↔ k = 0 ∨ x.1 = y.1 ∧ (k = 1 ∨ x.2 = y.2) := by
  constructor
  · intro h
    match k with
    | 0 => exact Or.inl rfl
    | 1 => exact Or.inr ⟨h 0 Nat.one_pos, Or.inl rfl⟩
    | k + 2 =>
        have hfirst : x.1 = y.1 := h 0 (Nat.succ_pos _)
        have hsecond : x.2 = y.2 := h 1 (Nat.lt_add_left k Nat.one_lt_two)
        exact Or.inr ⟨hfirst, Or.inr hsecond⟩
  · rintro (rfl | ⟨hfirst, rfl | hsecond⟩) j hj
    · exact absurd hj (Nat.not_lt_zero j)
    · rw [Nat.lt_one_iff.mp hj]
      exact hfirst
    · rw [Prod.ext hfirst hsecond]

namespace Progress

/-- The next calls of `send(None)` return the next terms. -/
theorem results_replicate (p : Progress) (k : ℕ) :
    Machine.results send p (List.replicate k none) =
      (List.range k).map fun j => .ok (term p.pair (p.returned + j)) := by
  induction k generalizing p with
  | zero => rfl
  | succ k ih =>
      rw [List.replicate_succ, Machine.results, ih, List.range_succ_eq_map, List.map_cons,
        List.map_map]
      refine congrArg _ (List.map_congr_left fun j _ => ?_)
      show Except.ok (term p.pair (p.returned + 1 + j)) = .ok (term p.pair (p.returned + (j + 1)))
      rw [Nat.add_right_comm, Nat.add_assoc]

/-- The generator has started once a `send(None)` has been called. -/
theorem returned_ne_zero {calls : List (Option (ℤ × ℤ))} (h : none ∈ calls) :
    (after calls).returned ≠ 0 := by
  obtain ⟨before, rest, rfl⟩ := List.append_of_mem h
  have hkeep : ∀ (p : Progress) (value : Option (ℤ × ℤ)), p.returned ≠ 0 →
      (p.send value).2.returned ≠ 0 := by
    intro p value hp
    cases value with
    | none => exact Nat.succ_ne_zero _
    | some pair =>
        rw [send, if_neg hp]
        exact Nat.one_ne_zero
  rw [after, Machine.after_append]
  exact Machine.after_invariant (fun p : Progress => p.returned ≠ 0) hkeep
    (Nat.succ_ne_zero _) rest

/-- Until then it refuses all it is sent. -/
theorem after_eq_start {calls : List (Option (ℤ × ℤ))} (h : none ∉ calls) :
    after calls = start := by
  induction calls with
  | nil => rfl
  | cons value calls ih =>
      obtain ⟨hvalue, hcalls⟩ := not_or.mp (mt List.mem_cons.mpr h)
      cases value with
      | none => exact absurd rfl hvalue
      | some pair => exact ih hcalls

/-- A reset. -/
theorem after_reset (calls : List (Option (ℤ × ℤ))) (pair : ℤ × ℤ) :
    after (calls ++ [some pair]) = if none ∈ calls then ⟨pair, 1⟩ else start := by
  have hlast : after (calls ++ [some pair]) = ((after calls).send (some pair)).2 :=
    Machine.after_append send start calls [some pair]
  rw [hlast, send]
  by_cases h : none ∈ calls
  · rw [if_neg (returned_ne_zero h), if_pos h]
  · rw [after_eq_start h, if_neg h]
    rfl

end Progress

namespace FibonacciWithSend

/-- After some calls, the next calls of `send(None)` go on where the progress stands. -/
theorem resumes_eq (calls : List (Option (ℤ × ℤ))) (k : ℕ) :
    resumes calls k = (List.range k).map fun j =>
      .ok (term (Progress.after calls).pair ((Progress.after calls).returned + j)) := by
  obtain ⟨-, hshows⟩ := results_eq calls
  have hsame : resumes calls k =
      Machine.results Progress.send (Progress.after calls) (List.replicate k none) :=
    (Machine.simulate Shows (fun _ _ value h => h.send value) hshows _).1
  rw [hsame, Progress.results_replicate]

/-- After `send((p, q))`, following some calls, the next `k` calls of `send(None)` return the first
`k` terms of the sequence that starts with `p` and `q`. -/
def Resets (calls : List (Option (ℤ × ℤ))) (p q : ℤ) (k : ℕ) : Prop :=
  resumes (calls ++ [some (p, q)]) k = (List.range k).map fun j => .ok (term (p, q) j)

/-- Every call so far has had the answer that the progress says, and the next `k` calls of
`send(None)` go on with the current sequence, without gap or repetition. -/
def Continues (calls : List (Option (ℤ × ℤ))) (k : ℕ) : Prop :=
  Machine.results send .created calls = Machine.results Progress.send .start calls ∧
    resumes calls k = (List.range k).map fun j =>
      .ok (term (Progress.after calls).pair ((Progress.after calls).returned + j))

/-- **Resets.**  The sequence always goes on as it should.  But after a reset the first `send(None)`
returns the second term, which makes no difference if there is no such call, or one and the two
terms are equal, or all terms are zero; and before the start the pair is refused, and the
Fibonacci numbers follow. -/
theorem fibonacci_with_send_resets (calls : List (Option (ℤ × ℤ))) (p q : ℤ) (k : ℕ) :
    (Resets calls p q k ↔
      k = 0 ∨ (none ∈ calls ∧ (k = 1 ∧ p = q ∨ p = 0 ∧ q = 0)) ∨
        (none ∉ calls ∧ p = 0 ∧ (k = 1 ∨ q = 1))) ∧
      Continues calls k := by
  refine ⟨?_, (results_eq calls).1, resumes_eq calls k⟩
  rw [Resets, resumes_eq, Progress.after_reset, List.map_inj_left]
  by_cases h : none ∈ calls
  · have hlate : (∀ j ∈ List.range k,
        (Except.ok (term (p, q) (1 + j)) : Sent) = .ok (term (p, q) j)) ↔
          ∀ j < k, term (q, p + q) j = term (p, q) j := by
      simp only [List.mem_range, Except.ok.injEq, Nat.add_comm 1, term_succ]
    rw [if_pos h, hlate, forall_term_eq_iff]
    simp only [h, not_true_eq_false, true_and, false_and, or_false]
    omega
  · have hrefused : (∀ j ∈ List.range k,
        (Except.ok (term (0, 1) (0 + j)) : Sent) = .ok (term (p, q) j)) ↔
          ∀ j < k, term (0, 1) j = term (p, q) j := by
      simp only [List.mem_range, Except.ok.injEq, Nat.zero_add]
    rw [if_neg h]
    refine hrefused.trans ?_
    rw [forall_term_eq_iff]
    simp only [h, not_false_eq_true, true_and, false_and, false_or]
    omega

/-- The demo: six calls of `send(None)`, and then `send((10, 20))`. -/
theorem demo_reset_is_late :
    resumes (List.replicate 6 none ++ [some (10, 20)]) 3 = [.ok 20, .ok 30, .ok 50] ∧
      ¬ Resets (List.replicate 6 none) 10 20 3 := by
  refine ⟨rfl, fun h => ?_⟩
  have hfirst : ([.ok 20, .ok 30, .ok 50] : List Sent) = [.ok 10, .ok 20, .ok 30] := h
  simp at hfirst

end FibonacciWithSend

end Coroutine

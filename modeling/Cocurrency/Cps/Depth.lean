/-
# How deep trampolined calls nest (`python/continuation_cps/continuation_cps.py`)

The trampolined functions once more, with the calls counted: the body of a call nests so many
further calls (`Call.depth`), and a `Bounce` remembers how deep the calls of its thunk nest.
Without the counts these are the functions of the previous module (`erase_fact`, `erase_fib`).

The trampoline keeps the calls of `fact_cps_trampoline` and `fib_cps_trampoline` themselves apart,
but not those of the continuations that they build: each calls the one before it.  So the last
thunk of factorial nests `n + 2` calls (`factDepth_eq`), the deepest one of Fibonacci `n / 2 + 2`
(`fibDepth_eq`), and there is no bound for all `n` (`depth_le_iff`).
-/
import Cocurrency.Cps.Trampoline

namespace Cps.Depth

/-- A `Done`, or a `Bounce` whose thunk nests `depth` calls and returns `next`. -/
inductive Bouncy where
  | Done (value : ℕ)
  | Bounce (depth : ℕ) (next : Bouncy)

/-- What the body of a call does: it nests `depth` further calls and returns `result`. -/
structure Call where
  depth : ℕ
  result : Bouncy

/-- A direct call. -/
def call (body : Call) : Call := ⟨body.depth + 1, body.result⟩

/-- `Bounce(lambda: …)` makes no call; its thunk makes the calls of `thunk`. -/
def bounce (thunk : Call) : Call := ⟨0, .Bounce thunk.depth thunk.result⟩

/-- The continuation `Done`. -/
def done (value : ℕ) : Call := ⟨0, .Done value⟩

/-- `fact_cps_trampoline`. -/
def fact : ℕ → (ℕ → Call) → Call
  | 0, cont => call (cont 1)
  | n + 1, cont => bounce (call (fact n fun res => call (cont ((n + 1) * res))))

/-- `fib_cps_trampoline`. -/
def fib : ℕ → (ℕ → Call) → Call
  | 0, cont => call (cont 0)
  | 1, cont => call (cont 1)
  | n + 2, cont =>
      bounce (call (fib (n + 1) fun a => bounce (call (fib n fun b => call (cont (a + b))))))

/-- The deepest nesting inside a thunk that the loop of `trampoline` calls. -/
def trampolineDepth : Bouncy → ℕ
  | .Done _ => 0
  | .Bounce depth next => max depth (trampolineDepth next)

/-- The depth throughout `trampoline(fact_cps_trampoline(n, Done))`. -/
def factDepth (n : ℕ) : ℕ := trampolineDepth (fact n done).result

/-- The depth throughout `trampoline(fib_cps_trampoline(n, Done))`. -/
def fibDepth (n : ℕ) : ℕ := trampolineDepth (fib n done).result

/-! ## Without the counts -/

/-- The computation without the counts. -/
def erase : Bouncy → Cps.Bouncy ℕ
  | .Done value => Cps.Done value
  | .Bounce _ next => Cps.Bounce (erase next)

/-- Factorial is the one that has been modelled. -/
theorem erase_fact (n : ℕ) (cont : ℕ → Call) :
    erase (fact n cont).result = factCpsTrampoline n fun res => erase (cont res).result := by
  induction n generalizing cont with
  | zero => rfl
  | succ n ih => exact congrArg Cps.Bounce (ih _)

/-- Fibonacci is the one that has been modelled. -/
theorem erase_fib (n : ℕ) (cont : ℕ → Call) :
    erase (fib n cont).result = fibCpsTrampoline n fun res => erase (cont res).result := by
  induction n using Nat.twoStepInduction generalizing cont with
  | zero => rfl
  | one => rfl
  | more n ih ih' =>
      unfold fibCpsTrampoline
      refine congrArg Cps.Bounce ((ih' _).trans ?_)
      refine congrArg (fibCpsTrampoline (n + 1)) ?_
      funext a
      exact congrArg Cps.Bounce (ih _)

/-! ## With the counts -/

@[simp] theorem call_depth (body : Call) : (call body).depth = body.depth + 1 := rfl

@[simp] theorem call_result (body : Call) : (call body).result = body.result := rfl

@[simp] theorem bounce_depth (thunk : Call) : (bounce thunk).depth = 0 := rfl

@[simp] theorem trampolineDepth_bounce (thunk : Call) :
    trampolineDepth (bounce thunk).result =
      max thunk.depth (trampolineDepth thunk.result) := rfl

/-- `fact_cps_trampoline` returns at once if there is something to multiply. -/
theorem fact_depth (n : ℕ) {cont : ℕ → Call} {k : ℕ} (h : ∀ res, (cont res).depth = k) :
    (fact n cont).depth = if n = 0 then k + 1 else 0 := by
  cases n with
  | zero => simp [fact, h]
  | succ n => simp [fact]

/-- `fib_cps_trampoline` returns at once if there is something to add. -/
theorem fib_depth (n : ℕ) {cont : ℕ → Call} {k : ℕ} (h : ∀ res, (cont res).depth = k) :
    (fib n cont).depth = if n ≤ 1 then k + 1 else 0 := by
  match n with
  | 0 => simp [fib, h]
  | 1 => simp [fib, h]
  | n + 2 => simp [fib]

/-- The continuations of factorial nest one call more at each step, and all of them are called by
the last thunk. -/
theorem trampolineDepth_fact (n : ℕ) {cont : ℕ → Call} {k : ℕ} (h : ∀ res, (cont res).depth = k) :
    trampolineDepth (fact n cont).result =
      max (if n = 0 then 0 else n + k + 2) (trampolineDepth (cont (factDirect n)).result) := by
  induction n generalizing cont k with
  | zero => simp [fact, factDirect]
  | succ n ih =>
      have hnext : ∀ res, (call (cont ((n + 1) * res))).depth = k + 1 := by
        intro res
        rw [call_depth, h]
      unfold fact
      rw [trampolineDepth_bounce, call_depth, call_result, fact_depth n hnext, ih hnext,
        call_result]
      have hproduct : factDirect (n + 1) = (n + 1) * factDirect n := rfl
      rw [hproduct, if_neg (Nat.succ_ne_zero n)]
      split_ifs <;> omega

/-- In Fibonacci only the continuation that waits for the second summand calls the one before
it; the one that waits for the first bounces. -/
theorem trampolineDepth_fib (n : ℕ) {cont : ℕ → Call} {k : ℕ} (h : ∀ res, (cont res).depth = k) :
    trampolineDepth (fib n cont).result =
      max (if n ≤ 1 then 0 else n / 2 + k + 2) (trampolineDepth (cont (fibDirect n)).result) := by
  induction n using Nat.twoStepInduction generalizing cont k with
  | zero => simp [fib, fibDirect]
  | one => simp [fib, fibDirect]
  | more n ih ih' =>
      have hsecond : ∀ a b, (call (cont (a + b))).depth = k + 1 := by
        intro a b
        rw [call_depth, h]
      have hfirst : ∀ a,
          (bounce (call (fib n fun b => call (cont (a + b))))).depth = 0 := fun a => rfl
      unfold fib
      rw [trampolineDepth_bounce, call_depth, call_result, fib_depth (n + 1) hfirst, ih' hfirst,
        trampolineDepth_bounce, call_depth, call_result, fib_depth n (hsecond _), ih (hsecond _),
        call_result]
      have hsum : fibDirect (n + 2) = fibDirect (n + 1) + fibDirect n := rfl
      rw [hsum]
      split_ifs <;> omega

/-- **The depth of factorial.** -/
theorem factDepth_eq (n : ℕ) : factDepth n = if n = 0 then 0 else n + 2 := by
  unfold factDepth
  rw [trampolineDepth_fact n (fun res => rfl : ∀ res, (done res).depth = 0)]
  exact Nat.max_zero _

/-- **The depth of Fibonacci.** -/
theorem fibDepth_eq (n : ℕ) : fibDepth n = if n ≤ 1 then 0 else n / 2 + 2 := by
  unfold fibDepth
  rw [trampolineDepth_fib n (fun res => rfl : ∀ res, (done res).depth = 0)]
  exact Nat.max_zero _

/-- **When the calls stay within a bound.** -/
theorem depth_le_iff (c n : ℕ) :
    (factDepth n ≤ c ↔ n = 0 ∨ n + 2 ≤ c) ∧ (fibDepth n ≤ c ↔ n ≤ 1 ∨ n / 2 + 2 ≤ c) := by
  rw [factDepth_eq, fibDepth_eq]
  constructor
  · split <;> omega
  · split <;> omega

/-- No bound holds for all numbers. -/
theorem depth_unbounded : ¬∃ c, ∀ n, factDepth n ≤ c ∧ fibDepth n ≤ c := by
  rintro ⟨c, h⟩
  have hfact := (h (c + 1)).1
  rw [factDepth_eq, if_neg (Nat.succ_ne_zero c)] at hfact
  omega

end Cps.Depth

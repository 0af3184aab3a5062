/-
# Continuation-passing style and trampolines (`python/continuation_cps/continuation_cps.py`)

Fibonacci and factorial in direct style, in continuation-passing style and with thunks for a
trampoline; the in-order walk of a binary tree in continuation-passing style.

A continuation is a function into an arbitrary type of answers.  A computation for the trampoline
(`Bouncy`) is a `Done`, or a `Bounce` whose thunk returns the next computation, and there may be
no end to them: Mathlib's `Computation`.  `trampoline` is the loop, cut off after a number of turns.

* `fibCps_eq`, `factCps_eq`, `treeWalkCps_eq` : a function in continuation-passing style gives its
  continuation what the direct one returns;
* `factCpsTrampoline_eq`, `fibCpsTrampoline_eq` : with thunks it bounces `n`, or exponentially many,
  times before it does so;
* `cps_preserves_meaning` : what this says of the loop, for every continuation.
-/
import Mathlib.Data.Seq.Computation
import Mathlib.Data.Nat.Factorial.Basic
import Mathlib.Data.Nat.Fib.Basic

namespace Cps

variable {ρ α β : Type*}

/-! ## Fibonacci and factorial -/

/-- `fib_direct`. -/
def fibDirect : ℕ → ℕ
  | 0 => 0
  | 1 => 1
  | n + 2 => fibDirect (n + 1) + fibDirect n

/-- `fib_cps`. -/
def fibCps : ℕ → (ℕ → ρ) → ρ
  | 0, cont => cont 0
  | 1, cont => cont 1
  | n + 2, cont => fibCps (n + 1) fun a => fibCps n fun b => cont (a + b)

/-- `fact_direct`. -/
def factDirect : ℕ → ℕ
  | 0 => 1
  | n + 1 => (n + 1) * factDirect n

/-- `fact_cps`. -/
def factCps : ℕ → (ℕ → ρ) → ρ
  | 0, cont => cont 1
  | n + 1, cont => factCps n fun res => cont ((n + 1) * res)

/-- The induction is on `n` for all continuations at once, as they grow with the calls. -/
theorem fibCps_eq (n : ℕ) (cont : ℕ → ρ) : fibCps n cont = cont (fibDirect n) := by
  induction n using Nat.twoStepInduction generalizing cont with
  | zero => rfl
  | one => rfl
  | more n ih ih' =>
      unfold fibCps
      rw [ih', ih]
      rfl

theorem factCps_eq (n : ℕ) (cont : ℕ → ρ) : factCps n cont = cont (factDirect n) := by
  induction n generalizing cont with
  | zero => rfl
  | succ n ih =>
      unfold factCps
      rw [ih]
      rfl

/-- The direct function computes the Fibonacci numbers. -/
theorem fibDirect_eq_fib (n : ℕ) : fibDirect n = Nat.fib n := by
  induction n using Nat.twoStepInduction with
  | zero => rfl
  | one => rfl
  | more n ih ih' =>
      unfold fibDirect
      rw [ih, ih', Nat.fib_add_two, Nat.add_comm]

/-- And the factorials. -/
theorem factDirect_eq_factorial (n : ℕ) : factDirect n = Nat.factorial n := by
  induction n with
  | zero => rfl
  | succ n ih =>
      unfold factDirect
      rw [ih, Nat.factorial_succ]

/-! ## The trampoline -/

/-- A `Done` or a `Bounce`. -/
abbrev Bouncy (α : Type*) := Computation α

/-- `Done`. -/
def Done (value : α) : Bouncy α := Computation.pure value

/-- `Bounce`: the thunk, when it is called, returns `next`. -/
def Bounce (next : Bouncy α) : Bouncy α := Computation.think next

/-- `trampoline`, as far as it gets in `turns` turns of its loop. -/
def trampoline : ℕ → Bouncy α → Option α
  | turns, result =>
      match result.destruct with
      | .inl value => some value
      | .inr next =>
          match turns with
          | 0 => none
          | turns + 1 => trampoline turns next

/-- The loop ends and returns `value`. -/
def Returns (result : Bouncy α) (value : α) : Prop := ∃ turns, trampoline turns result = some value

/-- `fact_cps_trampoline`. -/
def factCpsTrampoline : ℕ → (ℕ → Bouncy α) → Bouncy α
  | 0, cont => cont 1
  | n + 1, cont => Bounce (factCpsTrampoline n fun res => cont ((n + 1) * res))

/-- `fib_cps_trampoline`. -/
def fibCpsTrampoline : ℕ → (ℕ → Bouncy α) → Bouncy α
  | 0, cont => cont 0
  | 1, cont => cont 1
  | n + 2, cont =>
      Bounce (fibCpsTrampoline (n + 1) fun a => Bounce (fibCpsTrampoline n fun b => cont (a + b)))

/-- `times` bounces before `next`. -/
def bounces (times : ℕ) (next : Bouncy α) : Bouncy α := Computation.thinkN next times

theorem Bounce_bounces (times : ℕ) (next : Bouncy α) :
    Bounce (bounces times next) = bounces (times + 1) next := rfl

theorem bounces_bounces (m n : ℕ) (next : Bouncy α) :
    bounces m (bounces n next) = bounces (m + n) next := by
  induction m with
  | zero => rw [Nat.zero_add]; rfl
  | succ m ih => rw [← Bounce_bounces, ih, Bounce_bounces, Nat.add_right_comm]

@[simp] theorem trampoline_Done (turns : ℕ) (value : α) :
    trampoline turns (Done value) = some value := by
  unfold trampoline Done
  rw [Computation.destruct_pure]

@[simp] theorem trampoline_zero_Bounce (next : Bouncy α) : trampoline 0 (Bounce next) = none := by
  unfold trampoline Bounce
  rw [Computation.destruct_think]

/-- A bounce is one turn of the loop. -/
@[simp] theorem trampoline_succ_Bounce (turns : ℕ) (next : Bouncy α) :
    trampoline (turns + 1) (Bounce next) = trampoline turns next := by
  rw [trampoline]
  unfold Bounce
  rw [Computation.destruct_think]

theorem trampoline_bounces (turns times : ℕ) (next : Bouncy α) :
    trampoline (turns + times) (bounces times next) = trampoline turns next := by
  induction times with
  | zero => rfl
  | succ times ih => rw [← Bounce_bounces, ← Nat.add_assoc, trampoline_succ_Bounce, ih]

/-- The loop gets as far as the computation does in as many steps. -/
theorem trampoline_eq_runFor (turns : ℕ) (result : Bouncy α) :
    trampoline turns result = result.runFor turns := by
  induction turns generalizing result with
  | zero =>
      cases result using Computation.recOn with
      | pure value => exact trampoline_Done 0 value
      | think next => exact trampoline_zero_Bounce next
  | succ turns ih =>
      cases result using Computation.recOn with
      | pure value => exact trampoline_Done (turns + 1) value
      | think next => exact (trampoline_succ_Bounce turns next).trans (ih next)

/-- The loop returns the result of the computation, if there is one. -/
theorem returns_iff_mem (result : Bouncy α) (value : α) :
    Returns result value ↔ value ∈ result := by
  unfold Returns
  simp only [trampoline_eq_runFor]
  exact exists_congr fun turns => eq_comm

/-- Bounces do not change what is returned. -/
theorem returns_bounces (times : ℕ) (next : Bouncy α) (value : α) :
    Returns (bounces times next) value ↔ Returns next value := by
  rw [returns_iff_mem, returns_iff_mem]
  exact Computation.thinkN_mem times

/-- Factorial bounces once for each number. -/
theorem factCpsTrampoline_eq (n : ℕ) (cont : ℕ → Bouncy α) :
    factCpsTrampoline n cont = bounces n (cont (factDirect n)) := by
  induction n generalizing cont with
  | zero => rfl
  | succ n ih =>
      unfold factCpsTrampoline
      rw [ih, Bounce_bounces]
      rfl

/-- Fibonacci bounces twice for each addition, and there are `fib (n + 1) - 1` of them. -/
theorem fibCpsTrampoline_eq (n : ℕ) (cont : ℕ → Bouncy α) :
    fibCpsTrampoline n cont = bounces (2 * (Nat.fib (n + 1) - 1)) (cont (fibDirect n)) := by
  induction n using Nat.twoStepInduction generalizing cont with
  | zero => rfl
  | one => rfl
  | more n ih ih' =>
      unfold fibCpsTrampoline
      simp only [ih', ih, Bounce_bounces, bounces_bounces]
      have hpos : 0 < Nat.fib (n + 1) := Nat.fib_pos.mpr (Nat.succ_pos n)
      have hpos' : 0 < Nat.fib (n + 1 + 1) := Nat.fib_pos.mpr (Nat.succ_pos _)
      have hadd : Nat.fib (n + 2 + 1) = Nat.fib (n + 1) + Nat.fib (n + 1 + 1) := Nat.fib_add_two
      congr 1
      omega

/-! ## The walk of a tree -/

/-- `Node`, or `None`. -/
inductive Node (β : Type*) where
  | none
  | node (value : β) (left right : Node β)

/-- The in-order list of the values. -/
def Node.inorder : Node β → List β
  | .none => []
  | .node value left right => left.inorder ++ [value] ++ right.inorder

/-- `tree_walk_cps`. -/
def treeWalkCps : Node β → (List β → ρ) → ρ
  | .none, cont => cont []
  | .node value left right, cont =>
      treeWalkCps left fun leftVals => treeWalkCps right fun rightVals =>
        cont (leftVals ++ [value] ++ rightVals)

theorem treeWalkCps_eq (node : Node β) (cont : List β → ρ) :
    treeWalkCps node cont = cont node.inorder := by
  induction node generalizing cont with
  | none => rfl
  | node value left right ihl ihr =>
      unfold treeWalkCps
      rw [ihl, ihr]
      rfl

/-! ## Meaning -/

/-- **Continuation-passing and trampolined versions preserve meaning**, for every continuation;
and the loop takes as many turns more as there are bounces, so that it ends whenever the
computation that the continuation returns does. -/
theorem cps_preserves_meaning (n : ℕ) (k : ℕ → ρ) (kb : ℕ → Bouncy α) (node : Node β)
    (kt : List β → ρ) :
    (fibCps n k = k (fibDirect n) ∧ factCps n k = k (factDirect n)) ∧
    ((∀ value, Returns (fibCpsTrampoline n kb) value ↔ Returns (kb (fibDirect n)) value) ∧
      ∃ times, ∀ turns, trampoline (turns + times) (fibCpsTrampoline n kb) =
        trampoline turns (kb (fibDirect n))) ∧
    ((∀ value, Returns (factCpsTrampoline n kb) value ↔ Returns (kb (factDirect n)) value) ∧
      ∃ times, ∀ turns, trampoline (turns + times) (factCpsTrampoline n kb) =
        trampoline turns (kb (factDirect n))) ∧
    treeWalkCps node kt = kt node.inorder := by
  refine ⟨⟨fibCps_eq n k, factCps_eq n k⟩, ?_, ?_, treeWalkCps_eq node kt⟩
  · rw [fibCpsTrampoline_eq]
    exact ⟨returns_bounces _ _, _, fun turns => trampoline_bounces turns _ _⟩
  · rw [factCpsTrampoline_eq]
    exact ⟨returns_bounces _ _, _, fun turns => trampoline_bounces turns _ _⟩

end Cps

/-
# Nested generators and an explicit stack (`python/stackless_coroutine/stackless_vs_stackful.py`)

`stackless_chain` is a generator that yields from a smaller one; `StackfulCoroutine` is a machine
that pushes a frame for the smaller one.  Both yield what is `nested` around a leaf, but not the
same leaf: the machine enters and exits the frame with `n = 0` as it does every other one, and
the generator does not (`run_stackful_eq`, `run_stackless_eq`).  So the two never return the same
list (`run_stackful_ne_run_stackless`).

* `run_stackful_calls` : how many calls of `step` the machine takes, what they return, and the
  events it leaves.
-/
import Mathlib.Algebra.BigOperators.Group.List.Basic
import Mathlib.Algebra.Ring.Nat

namespace Coroutine

/-! ## Events -/

/-- A line on the way down. -/
def enter (n depth : ℕ) : String := s!"enter n={n} depth={depth}"

/-- The line at the bottom. -/
def leaf (depth : ℕ) : String := s!"leaf at depth={depth}"

/-- A line on the way up. -/
def exit (n depth : ℕ) : String := s!"exit n={n} depth={depth}"

/-! ## Generators -/

/-- `stackless_chain`: what the generator yields. -/
def stacklessChain : ℕ → ℕ → List String
  | 0, depth => [leaf depth]
  | n + 1, depth =>
      enter (n + 1) depth :: (stacklessChain n (depth + 1) ++ [exit (n + 1) depth])

/-- `run_stackless`. -/
def runStackless (maxN : ℕ) : List String := stacklessChain maxN 0

/-! ## An explicit stack -/

/-- Where a frame is. -/
inductive Phase where
  | enter
  | afterChild
  | exit
  deriving DecidableEq, Repr

/-- A frame of the explicit stack. -/
structure Frame where
  n : ℕ
  depth : ℕ
  phase : Phase
  deriving DecidableEq, Repr

/-- The stack has its top first. -/
structure StackfulCoroutine where
  stack : List Frame
  results : List String
  done : Bool
  deriving DecidableEq, Repr

namespace StackfulCoroutine

/-- `StackfulCoroutine(n)`. -/
def new (n : ℕ) : StackfulCoroutine := ⟨[⟨n, 0, .enter⟩], [], false⟩

/-- `step`: the machine afterwards, and the value returned. -/
def step (coro : StackfulCoroutine) : StackfulCoroutine × Bool :=
  match coro.stack with
  | [] => ({ coro with done := true }, false)
  | frame :: rest =>
      match frame.phase with
      | .enter =>
          let results := coro.results ++ [Coroutine.enter frame.n frame.depth]
          if frame.n = 0 then
            ({ coro with
                stack := { frame with phase := .exit } :: rest
                results := results ++ [leaf frame.depth] }, true)
          else
            ({ coro with
                stack := ⟨frame.n - 1, frame.depth + 1, .enter⟩ ::
                  { frame with phase := .afterChild } :: rest
                results := results }, true)
      | .afterChild => ({ coro with stack := { frame with phase := .exit } :: rest }, true)
      | .exit =>
          ({ coro with
              stack := rest
              results := coro.results ++ [Coroutine.exit frame.n frame.depth] }, true)

/-! ## The loop ends -/

/-- How many steps a frame still takes, with the frames that it pushes. -/
def Frame.weight (frame : Frame) : ℕ :=
  match frame.phase with
  | .enter => 3 * frame.n + 2
  | .afterChild => 2
  | .exit => 1

/-- How many steps the machine still takes. -/
def weight (coro : StackfulCoroutine) : ℕ :=
  (coro.stack.map Frame.weight).sum + if coro.done then 0 else 1

/-- Each step of a machine that is not done is one of those counted. -/
theorem weight_step_add_one (coro : StackfulCoroutine) (h : coro.done = false) :
    coro.step.1.weight + 1 = coro.weight := by
  obtain ⟨stack, results, done⟩ := coro
  cases h
  cases stack with
  | nil => rfl
  | cons frame rest =>
      obtain ⟨n, depth, phase⟩ := frame
      cases phase with
      | enter =>
          by_cases hn : n = 0
          · simp only [step, weight, Frame.weight, hn, if_true, List.map_cons, List.sum_cons,
              Bool.false_eq_true, if_false]
            omega
          · simp only [step, weight, Frame.weight, if_neg hn, List.map_cons, List.sum_cons,
              Bool.false_eq_true, if_false]
            omega
      | afterChild =>
          simp only [step, weight, Frame.weight, List.map_cons, List.sum_cons,
            Bool.false_eq_true, if_false]
          omega
      | exit =>
          simp only [step, weight, Frame.weight, List.map_cons, List.sum_cons,
            Bool.false_eq_true, if_false]
          omega

/-- Each step of a machine that is not done brings it closer to its end. -/
theorem weight_step (coro : StackfulCoroutine) (h : coro.done = false) :
    coro.step.1.weight < coro.weight := by
  have hstep := weight_step_add_one coro h
  omega

/-- `while not coro.done: coro.step()`. -/
def loop (coro : StackfulCoroutine) : StackfulCoroutine :=
  if _h : coro.done = false then loop coro.step.1 else coro
termination_by coro.weight
decreasing_by exact weight_step coro _h

end StackfulCoroutine

open StackfulCoroutine

/-- `run_stackful`. -/
def runStackful (n : ℕ) : List String := (loop (new n)).results

/-! ## What they return -/

/-- `n` nested pairs of events around those of a leaf. -/
def nested (atLeaf : ℕ → List String) : ℕ → ℕ → List String
  | 0, depth => atLeaf depth
  | n + 1, depth =>
      enter (n + 1) depth :: (nested atLeaf n (depth + 1) ++ [exit (n + 1) depth])

/-- How many lines there are. -/
theorem length_nested {atLeaf : ℕ → List String} {k : ℕ} (hleaf : ∀ d, (atLeaf d).length = k)
    (n depth : ℕ) : (nested atLeaf n depth).length = 2 * n + k := by
  induction n generalizing depth with
  | zero =>
      rw [nested, hleaf]
      omega
  | succ n ih =>
      simp only [nested, List.length_cons, List.length_append, List.length_nil, ih]
      omega

/-- The events of the generator: a leaf is one event. -/
theorem stacklessChain_eq (n depth : ℕ) :
    stacklessChain n depth = nested (fun d => [leaf d]) n depth := by
  induction n generalizing depth with
  | zero => rfl
  | succ n ih => rw [stacklessChain, nested, ih]

/-- The generators print what the recursion prints. -/
theorem run_stackless_eq (n : ℕ) : runStackless n = nested (fun d => [leaf d]) n 0 :=
  stacklessChain_eq n 0

/-- What the machine does at a leaf. -/
def stackfulLeaf (depth : ℕ) : List String := [enter 0 depth, leaf depth, exit 0 depth]

namespace StackfulCoroutine

/-- The loop goes on. -/
theorem loop_of_not_done {coro : StackfulCoroutine} (h : coro.done = false) :
    loop coro = loop coro.step.1 := by
  rw [loop, dif_pos h]

/-- The loop is over. -/
theorem loop_of_done {coro : StackfulCoroutine} (h : coro.done = true) : loop coro = coro := by
  rw [loop, dif_neg (by rw [h]; exact Bool.noConfusion)]

/-- The frame at the top of the stack is left again, whatever is below it. -/
theorem loop_enter (n depth : ℕ) (rest : List Frame) (results : List String) :
    loop ⟨⟨n, depth, .enter⟩ :: rest, results, false⟩ =
      loop ⟨rest, results ++ nested stackfulLeaf n depth, false⟩ := by
  induction n generalizing depth rest results with
  | zero =>
      rw [loop_of_not_done rfl]
      simp only [step, if_true]
      rw [loop_of_not_done rfl]
      simp only [step, nested, stackfulLeaf, List.append_assoc, List.cons_append, List.nil_append]
  | succ n ih =>
      rw [loop_of_not_done rfl]
      simp only [step, if_neg (Nat.succ_ne_zero n), Nat.add_sub_cancel]
      -- the frame that is pushed runs to its end, and then this one does
      rw [ih, loop_of_not_done rfl]
      simp only [step]
      rw [loop_of_not_done rfl]
      simp only [step, nested, List.append_assoc, List.cons_append, List.nil_append]

end StackfulCoroutine

/-- The events of the machine: it enters and exits a leaf, too. -/
theorem run_stackful_eq (n : ℕ) : runStackful n = nested stackfulLeaf n 0 := by
  rw [runStackful, new, loop_enter, loop_of_not_done rfl, step]
  dsimp only
  rw [loop_of_done rfl, List.nil_append]

/-- **The two never agree.**  The machine returns two events more than the generator. -/
theorem run_stackful_ne_run_stackless (n : ℕ) : runStackless n ≠ runStackful n := by
  intro heq
  have hlength := congrArg List.length heq
  rw [run_stackless_eq, run_stackful_eq, length_nested (k := 1) (fun _ => rfl),
    length_nested (k := 3) (fun _ => rfl)] at hlength
  omega

/-- Already for `n = 0`: `leaf` alone, and `leaf` between `enter` and `exit`. -/
theorem not_run_stackful_eq : ¬ ∀ n, runStackless n = runStackful n := by
  intro hall
  have hzero := hall 0
  rw [run_stackful_eq] at hzero
  cases hzero

/-! ## The calls of `step` -/

namespace StackfulCoroutine

/-- The machine of `n` after `k` calls of `step`. -/
def after (n k : ℕ) : StackfulCoroutine := (fun coro => coro.step.1)^[k] (new n)

/-- One call more. -/
theorem after_succ (n k : ℕ) : after n (k + 1) = (after n k).step.1 := by
  unfold after
  rw [Function.iterate_succ_apply']

/-- A machine that is done has an empty stack. -/
def Emptied (coro : StackfulCoroutine) : Prop := coro.done = true → coro.stack = []

/-- An empty stack stays empty. -/
theorem Emptied.step {coro : StackfulCoroutine} (h : Emptied coro) : Emptied coro.step.1 := by
  unfold StackfulCoroutine.step
  split
  · next hnil => exact fun _ => hnil
  · next frame rest hstack =>
    have hrunning : coro.done = false := by
      apply Bool.eq_false_iff.mpr
      intro hdone
      rw [h hdone] at hstack
      cases hstack
    have hnever : ∀ stack results, Emptied ⟨stack, results, coro.done⟩ := by
      intro stack results hdone
      rw [hrunning] at hdone
      cases hdone
    split
    · dsimp only
      split_ifs
      · apply hnever
      · apply hnever
    · apply hnever
    · apply hnever

/-- A frame takes at least one step. -/
theorem Frame.weight_pos (frame : Frame) : 1 ≤ Frame.weight frame := by
  unfold Frame.weight
  split <;> omega

/-- Nothing is left to be done. -/
theorem weight_of_emptied {coro : StackfulCoroutine} (h : Emptied coro) (hdone : coro.done = true) :
    coro.weight = 0 := by
  unfold weight
  rw [h hdone, hdone]
  rfl

/-- A frame on the stack is still to be left. -/
theorem weight_of_stack_ne_nil {coro : StackfulCoroutine} (hdone : coro.done = false)
    (hstack : coro.stack ≠ []) : 2 ≤ coro.weight := by
  obtain ⟨frame, rest, hcons⟩ := List.exists_cons_of_ne_nil hstack
  have hframe := Frame.weight_pos frame
  unfold weight
  rw [hcons, hdone, List.map_cons, List.sum_cons]
  simp only [Bool.false_eq_true, if_false]
  omega

/-- Only the flag is still to be set. -/
theorem weight_of_stack_nil {coro : StackfulCoroutine} (hdone : coro.done = false)
    (hstack : coro.stack = []) : coro.weight = 1 := by
  unfold weight
  rw [hstack, hdone]
  rfl

/-- Before it is done the machine has taken one step a call. -/
theorem weight_after (n k : ℕ) (hk : k ≤ 3 * n + 3) :
    (after n k).weight + k = 3 * n + 3 ∧ Emptied (after n k) := by
  induction k with
  | zero =>
      constructor
      · simp [after, new, weight, Frame.weight]
      · intro hdone
        cases hdone
  | succ k ih =>
      obtain ⟨hweight, hemptied⟩ := ih (by omega)
      have hrunning : (after n k).done = false := by
        apply Bool.eq_false_iff.mpr
        intro hdone
        rw [weight_of_emptied hemptied hdone] at hweight
        omega
      rw [after_succ]
      constructor
      · have hstep := weight_step_add_one (after n k) hrunning
        omega
      · exact hemptied.step

/-- It is not done before. -/
theorem done_after {n k : ℕ} (hk : k < 3 * n + 3) : (after n k).done = false := by
  obtain ⟨hweight, hemptied⟩ := weight_after n k (by omega)
  apply Bool.eq_false_iff.mpr
  intro hdone
  rw [weight_of_emptied hemptied hdone] at hweight
  omega

/-- The stack is emptied by the call before the last one. -/
theorem stack_after_eq_nil_iff {n k : ℕ} (hk : k < 3 * n + 3) :
    (after n k).stack = [] ↔ k = 3 * n + 2 := by
  have hweight := (weight_after n k (by omega)).1
  constructor
  · intro hnil
    rw [weight_of_stack_nil (done_after hk) hnil] at hweight
    omega
  · intro heq
    by_contra hstack
    have hle := weight_of_stack_ne_nil (done_after hk) hstack
    omega

/-- `step` returns `False` on an empty stack only. -/
theorem step_returns (coro : StackfulCoroutine) : coro.step.2 = false ↔ coro.stack = [] := by
  unfold step
  split
  · next hnil => simp [hnil]
  · next frame rest hcons =>
    rw [hcons]
    split
    · dsimp only
      split_ifs <;> simp
    · simp
    · simp

/-- The loop is the calls that the machine takes. -/
theorem loop_after (n k : ℕ) (hk : k ≤ 3 * n + 3) : loop (new n) = loop (after n k) := by
  induction k with
  | zero => rfl
  | succ k ih => rw [ih (by omega), loop_of_not_done (done_after (by omega)), after_succ]

end StackfulCoroutine

/-- All frames are entered, then there is the leaf, and all frames are exited. -/
def balancedTrace (n depth : ℕ) : List String :=
  (List.range (n + 1)).reverse.map (fun m => enter m (depth + n - m)) ++ [leaf (depth + n)] ++
    (List.range (n + 1)).map fun m => exit m (depth + n - m)

/-- The machine's nested lines, spelt out. -/
theorem nested_eq_balancedTrace (n depth : ℕ) :
    nested stackfulLeaf n depth = balancedTrace n depth := by
  induction n generalizing depth with
  | zero => simp [nested, stackfulLeaf, balancedTrace]
  | succ n ih =>
      have hdepth : depth + 1 + n = depth + (n + 1) := by omega
      unfold nested
      rw [ih]
      unfold balancedTrace
      rw [List.range_succ (n := n + 1), hdepth]
      simp

/-- **The calls of `step`.**  For every `n` the loop makes `3 * n + 3` of them: the machine is done
after the last one and not before, and only the last one, on an empty stack, returns `False`.  The
events are those of all frames entered, the leaf, and all frames exited. -/
theorem run_stackful_calls (n : ℕ) :
    (∀ k, k < 3 * n + 3 → (after n k).done = false ∧
      ((after n k).step.2 = false ↔ k = 3 * n + 2) ∧
      ((after n k).stack = [] ↔ k = 3 * n + 2)) ∧
    (after n (3 * n + 3)).done = true ∧
    runStackful n = (after n (3 * n + 3)).results ∧
    runStackful n =
      (List.range (n + 1)).reverse.map (fun m => enter m (n - m)) ++ [leaf n] ++
        (List.range (n + 1)).map fun m => exit m (n - m) := by
  have hdone : (after n (3 * n + 3)).done = true := by
    by_contra hrunning
    have hweight := (weight_after n (3 * n + 3) le_rfl).1
    unfold weight at hweight
    simp [hrunning] at hweight
  constructor
  · intro k hk
    have hstack := stack_after_eq_nil_iff hk
    exact ⟨done_after hk, (step_returns _).trans hstack, hstack⟩
  constructor
  · exact hdone
  constructor
  · unfold runStackful
    rw [loop_after n _ le_rfl, loop_of_done hdone]
  · rw [run_stackful_eq, nested_eq_balancedTrace]
    unfold balancedTrace
    rw [Nat.zero_add]

end Coroutine

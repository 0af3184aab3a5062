/-
# Fibonacci generators on machine integers

`fibonacci_sequence` (`cpp/stackless_coroutine/fibonacci.cpp`) on `uint64_t`, `generateTraditional`
(`java/stackless_coroutine/FibonacciGenerator.java`) on `int`, `fibonacciIterator`
(`scala/stackless_coroutine/FibonacciGen.scala`) and `fibonacciSequence`
(`kotlin/stackless_coroutine/SuspendFibonacci.kt`) on `Long`.  The first refuses to go beyond its
width; the others go on.

What a program produces is the list of its items, and how it ends.  Memory has no bound.

* `Cpp.produced_eq`, `Java.generateTraditional_eq`, `Scala.produced_eq`, `Kotlin.produced_eq` : each
  program produces the numbers reduced to its width;
* `exact_or_refuses` : up to which count they are exact.
-/
import Cocurrency.Coroutine.YieldFibonacci
import Cocurrency.Lib.FixedWidth
import Mathlib.Tactic.NormNum.NatFib

namespace Coroutine

open Generator

/-- What the programs throw, or that their behaviour is undefined. -/
inductive Thrown where
  | runtimeError (what : String)
  | negativeArraySize (size : ℤ)
  | arrayIndexOutOfBounds (index length : ℕ)
  | noSuchElement
  | illegalArgument (message : String)
  | undefinedBehaviour
  deriving DecidableEq, Repr

/-- On machine integers, too, the sum of two successive numbers is the one after them. -/
theorem ofNat_fib_add {w : Type*} [Add w] (W : FixedWidth w) (i : ℕ) :
    W.ofNat (Nat.fib i) + W.ofNat (Nat.fib (i + 1)) = W.ofNat (Nat.fib (i + 2)) := by
  rw [← W.ofNat_add, Nat.fib_add_two]

/-- The recursion of the Fibonacci numbers in 64 bits. -/
theorem int64_fib_add (i : ℕ) :
    Int64.ofNat (Nat.fib i) + .ofNat (Nat.fib (i + 1)) = .ofNat (Nat.fib (i + 2)) :=
  ofNat_fib_add .int64 i

/-! ## C++ -/

namespace Cpp

/-- The frame of `fibonacci_sequence(n)`: at its start, or suspended at one of its three
`co_yield`. -/
inductive FibonacciSequence where
  | start (n : UInt32)
  | zero (n : UInt32)
  | one (n : UInt32)
  | sum (n i : UInt32) (a b s : UInt64)
  deriving DecidableEq, Repr

namespace FibonacciSequence

/-- The head of the loop, up to `co_yield s`. -/
def turn (n i : UInt32) (a b : UInt64) : Resumed UInt64 Thrown FibonacciSequence :=
  if i < n then
    let s := a + b
    .yielded s (.sum n i a b s)
  else .returned

/-- From one `co_yield` to the next. -/
def resume : FibonacciSequence → Resumed UInt64 Thrown FibonacciSequence
  | .start n =>
      if n = 0 then .returned
      else if 94 < n then
        .raised (.runtimeError "Too big Fibonacci sequence. Elements would overflow uint64_t.")
      else .yielded 0 (.zero n)
  | .zero n => if n = 1 then .returned else .yielded 1 (.one n)
  | .one n => if n = 2 then .returned else turn n 2 0 1
  | .sum n i _ b s => turn n (i + 1) b s

end FibonacciSequence

/-- `Generator<uint64_t>`: the coroutine behind the handle `h_`, with its promise.  The coroutine is
`done` when it is suspended for good. -/
structure Generator where
  frame : FibonacciSequence
  value : UInt64
  exception : Option Thrown
  done : Bool
  full : Bool
  deriving DecidableEq, Repr

namespace Generator

/-- `fibonacci_sequence(n)`.  The promise holds some value. -/
def fibonacciSequence (n : UInt32) (value : UInt64) : Generator :=
  ⟨.start n, value, none, false, false⟩

/-- `h_()`; a coroutine that is done must not be resumed. -/
def resumeHandle (g : Generator) : Except Thrown Generator :=
  if g.done then .error .undefinedBehaviour
  else
    match g.frame.resume with
    | .yielded value frame => .ok { g with frame := frame, value := value }
    | .returned => .ok { g with done := true }
    | .raised e => .ok { g with exception := some e, done := true }

/-- `fill`. -/
def fill (g : Generator) : Except Thrown Generator :=
  if g.full then .ok g
  else do
    let g ← g.resumeHandle
    match g.exception with
    | some e => .error e
    | none => .ok { g with full := true }

/-- `operator bool`. -/
def isOpen (g : Generator) : Except Thrown (Bool × Generator) := do
  let g ← g.fill
  .ok (!g.done, g)

/-- `operator()`. -/
def call (g : Generator) : Except Thrown (UInt64 × Generator) := do
  let g ← g.fill
  .ok (g.value, { g with full := false })

/-- One turn of `while (gen)`, with a call of `gen()` in its body. -/
def next (g : Generator) : Resumed UInt64 Thrown Generator :=
  match g.isOpen with
  | .error e => .raised e
  | .ok (false, _) => .returned
  | .ok (true, g) =>
      match g.call with
      | .error e => .raised e
      | .ok (value, g) => .yielded value g

/-- The coroutine is suspended in `frame`, and what it has yielded has been handed out. -/
def Idle (g : Generator) (frame : FibonacciSequence) : Prop :=
  g.frame = frame ∧ g.exception = none ∧ g.done = false ∧ g.full = false

/-- **The wrapper.**  A turn of the loop hands out what the coroutine yields. -/
theorem next_matches (g : Generator) (frame : FibonacciSequence) (h : g.Idle frame) :
    g.next.Matches Idle frame.resume := by
  obtain ⟨suspended, value, _, _, _⟩ := g
  obtain ⟨rfl, rfl, rfl, rfl⟩ := h
  show (next ⟨suspended, value, none, false, false⟩).Matches Idle suspended.resume
  cases hframe : suspended.resume with
  | yielded item later =>
      have hresume : resumeHandle ⟨suspended, value, none, false, false⟩ =
          .ok ⟨later, item, none, false, false⟩ := by
        rw [resumeHandle, hframe]
        rfl
      have hfill : fill ⟨suspended, value, none, false, false⟩ =
          .ok ⟨later, item, none, false, true⟩ := by
        rw [fill, hresume]
        rfl
      have hnext : next ⟨suspended, value, none, false, false⟩ =
          .yielded item ⟨later, item, none, false, false⟩ := by
        rw [next, isOpen, hfill]
        rfl
      rw [hnext]
      exact .yielded item ⟨rfl, rfl, rfl, rfl⟩
  | returned =>
      have hresume : resumeHandle ⟨suspended, value, none, false, false⟩ =
          .ok ⟨suspended, value, none, true, false⟩ := by
        rw [resumeHandle, hframe]
        rfl
      have hnext : next ⟨suspended, value, none, false, false⟩ = .returned := by
        rw [next, isOpen, fill, hresume]
        rfl
      rw [hnext]
      exact .returned
  | raised e =>
      have hresume : resumeHandle ⟨suspended, value, none, false, false⟩ =
          .ok ⟨suspended, value, some e, true, false⟩ := by
        rw [resumeHandle, hframe]
        rfl
      have hnext : next ⟨suspended, value, none, false, false⟩ = .raised e := by
        rw [next, isOpen, fill, hresume]
        rfl
      rw [hnext]
      exact .raised e

end Generator

/-- What `while (gen) gen();` reads of `fibonacci_sequence(n)`. -/
def produced (n : UInt32) (value : UInt64) : List UInt64 × Ending Thrown :=
  drain Generator.next (n.toNat + 1) (Generator.fibonacciSequence n value)

namespace FibonacciSequence

/-- The frame after `i` items. -/
def state (n : UInt32) : ℕ → FibonacciSequence
  | 0 => .start n
  | 1 => .zero n
  | 2 => .one n
  | i + 3 => .sum n (.ofNat (i + 2)) (.ofNat (Nat.fib i)) (.ofNat (Nat.fib (i + 1)))
      (.ofNat (Nat.fib (i + 2)))

/-- From the third item on, resuming is a turn of the loop. -/
theorem resume_state {n : UInt32} {i : ℕ} (hi : i + 2 ≤ n.toNat) :
    (state n (i + 2)).resume =
      if i + 2 < n.toNat then .yielded (.ofNat (Nat.fib (i + 2))) (state n (i + 3))
      else .returned := by
  have hsize : i + 2 < 2 ^ 32 := Nat.lt_of_le_of_lt hi n.toNat_lt
  have hlt : UInt32.ofNat (i + 2) < n ↔ i + 2 < n.toNat := by
    rw [UInt32.lt_iff_toNat_lt, UInt32.toNat_ofNat_of_lt' hsize]
  have hturn : (state n (i + 2)).resume =
      turn n (.ofNat (i + 2)) (.ofNat (Nat.fib i)) (.ofNat (Nat.fib (i + 1))) := by
    cases i with
    | zero =>
        by_cases htwo : n = 2
        · subst htwo
          rfl
        · exact if_neg htwo
    | succ i =>
        show turn n (.ofNat (i + 2) + 1) _ _ = _
        rw [show (1 : UInt32) = .ofNat 1 from rfl, ← UInt32.ofNat_add]
  have hsum : UInt64.ofNat (Nat.fib i) + .ofNat (Nat.fib (i + 1)) = .ofNat (Nat.fib (i + 2)) :=
    ofNat_fib_add .uint64 i
  rw [hturn, turn]
  simp only [hlt, hsum]
  rfl

end FibonacciSequence

/-- The wrapper hands out what the coroutine yields. -/
theorem produced_eq_drain (n : UInt32) (value : UInt64) :
    produced n value = drain FibonacciSequence.resume (n.toNat + 1) (.start n) :=
  drain_eq Generator.Idle Generator.next_matches _ ⟨rfl, rfl, rfl, rfl⟩

/-- **C++.**  The numbers are produced up to the last one that fits into 64 bits. -/
theorem produced_eq {n : UInt32} (hn : n.toNat ≤ 94) (value : UInt64) :
    produced n value = ((List.range n.toNat).map fun i => .ofNat (Nat.fib i), .returned) := by
  rw [produced_eq_drain]
  have hguard : ¬ 94 < n := by
    rw [UInt32.lt_iff_toNat_lt]
    exact Nat.not_lt_of_le hn
  refine drain_of_states (FibonacciSequence.state n) _ (fun i hi => ?_) ?_
  · match i with
    | 0 =>
        have hzero : n ≠ 0 := by
          rintro rfl
          exact absurd hi (Nat.lt_irrefl 0)
        exact (if_neg hzero).trans (if_neg hguard)
    | 1 =>
        have hone : n ≠ 1 := by
          rintro rfl
          exact absurd hi (Nat.lt_irrefl 1)
        exact if_neg hone
    | i + 2 => rw [FibonacciSequence.resume_state hi.le, if_pos hi]
  · match hcount : n.toNat with
    | 0 => exact if_pos (UInt32.toNat_inj.mp hcount)
    | 1 => exact if_pos (UInt32.toNat_inj.mp hcount)
    | i + 2 =>
        rw [FibonacciSequence.resume_state hcount.ge, if_neg (Nat.not_lt_of_le hcount.le)]

/-- Beyond, nothing is. -/
theorem produced_of_lt {n : UInt32} (hn : 94 < n.toNat) (value : UInt64) :
    produced n value = ([], .raised
      (.runtimeError "Too big Fibonacci sequence. Elements would overflow uint64_t.")) := by
  have hzero : n ≠ 0 := by
    rintro rfl
    exact absurd hn (Nat.not_lt_zero 94)
  have hguard : 94 < n := UInt32.lt_iff_toNat_lt.mpr hn
  have hraises : (FibonacciSequence.start n).resume = .raised
      (.runtimeError "Too big Fibonacci sequence. Elements would overflow uint64_t.") :=
    (if_neg hzero).trans (if_pos hguard)
  rw [produced_eq_drain, drain_raised hraises]

end Cpp

/-! ## Java -/

namespace Java

/-- `new int[count]`. -/
def newArray (count : Int32) : Except Thrown (List Int32) :=
  if count < 0 then .error (.negativeArraySize count.toInt)
  else .ok (List.replicate count.toInt.toNat 0)

/-- `fib[i]`. -/
def load (fib : List Int32) (i : ℕ) : Except Thrown Int32 :=
  match fib[i]? with
  | some value => .ok value
  | none => .error (.arrayIndexOutOfBounds i fib.length)

/-- `fib[i] = value`. -/
def store (fib : List Int32) (i : ℕ) (value : Int32) : Except Thrown (List Int32) :=
  if i < fib.length then .ok (fib.set i value) else .error (.arrayIndexOutOfBounds i fib.length)

/-- The first loop, from the index `i`.  As it ends at `count`, the index does not wrap. -/
def fill : ℕ → ℕ → List Int32 → Except Thrown (List Int32)
  | 0, _, fib => .ok fib
  | turns + 1, i, fib => do
      let x ← load fib (i - 1)
      let y ← load fib (i - 2)
      let fib ← store fib i (x + y)
      fill turns (i + 1) fib

/-- The array that `generateTraditional(count)` fills. -/
def filled (count : Int32) : Except Thrown (List Int32) := do
  let fib ← newArray count
  let fib ← store fib 0 0
  let fib ← if 1 < count then store fib 1 1 else .ok fib
  fill (count.toInt.toNat - 2) 2 fib

/-- One turn of the second loop, which prints. -/
def print (count : ℕ) (fib : List Int32) (i : ℕ) : Resumed Int32 Thrown ℕ :=
  if i < count then
    match load fib i with
    | .ok value => .yielded value (i + 1)
    | .error e => .raised e
  else .returned

/-- `generateTraditional(count)`: the numbers that are printed. -/
def generateTraditional (count : Int32) : List Int32 × Ending Thrown :=
  match filled count with
  | .error e => ([], .raised e)
  | .ok fib => drain (print count.toInt.toNat fib) (count.toInt.toNat + 1) 0

/-- The array up to the index `n`. -/
def numbers (n : ℕ) : List Int32 := (List.range n).map fun i => .ofNat (Nat.fib i)

/-- So many numbers. -/
@[simp] theorem length_numbers (n : ℕ) : (numbers n).length = n := by
  rw [numbers, List.length_map, List.length_range]

/-- One number more. -/
theorem numbers_succ (n : ℕ) : numbers (n + 1) = numbers n ++ [.ofNat (Nat.fib n)] := by
  rw [numbers, List.range_succ, List.map_append]
  rfl

/-- A number that is in the array. -/
theorem load_numbers {n i : ℕ} (hi : i < n) (rest : List Int32) :
    load (numbers n ++ rest) i = .ok (.ofNat (Nat.fib i)) := by
  have hget : (numbers n ++ rest)[i]? = some (.ofNat (Nat.fib i)) := by
    rw [List.getElem?_append_left (by rw [length_numbers]; exact hi), numbers, List.getElem?_map,
      List.getElem?_range hi]
    rfl
  rw [load, hget]

/-- The number after those stored so far. -/
theorem store_numbers (n : ℕ) (value : Int32) (rest : List Int32) :
    store (numbers n ++ value :: rest) n (.ofNat (Nat.fib n)) = .ok (numbers (n + 1) ++ rest) := by
  have hlt : n < (numbers n ++ value :: rest).length := by
    rw [List.length_append, length_numbers]
    exact Nat.lt_add_of_pos_right (Nat.succ_pos _)
  rw [store, if_pos hlt, List.set_append_right _ _ (length_numbers n).le, length_numbers,
    Nat.sub_self, numbers_succ, List.append_assoc]
  rfl

/-- A turn of the first loop that raises nothing. -/
theorem fill_succ {turns i : ℕ} {fib fib' : List Int32} {x y : Int32}
    (hlater : load fib (i - 1) = .ok x) (hearlier : load fib (i - 2) = .ok y)
    (hstore : store fib i (x + y) = .ok fib') :
    fill (turns + 1) i fib = fill turns (i + 1) fib' := by
  simp only [fill, hlater, hearlier, hstore, bind, Except.bind]

/-- The first loop.  The induction is on its turns; the array holds the numbers up to the index,
and zeros from there. -/
theorem fill_eq (turns i : ℕ) :
    fill turns (i + 2) (numbers (i + 2) ++ List.replicate turns 0) =
      .ok (numbers (i + 2 + turns)) := by
  induction turns generalizing i with
  | zero => exact congrArg Except.ok (List.append_nil _)
  | succ turns ih =>
      have hsum :
          Int32.ofNat (Nat.fib (i + 1)) + .ofNat (Nat.fib i) = .ofNat (Nat.fib (i + 2)) := by
        rw [Int32.add_comm]
        exact ofNat_fib_add .int32 i
      have hlater : load (numbers (i + 2) ++ List.replicate (turns + 1) 0) (i + 2 - 1) =
          .ok (.ofNat (Nat.fib (i + 1))) := load_numbers (Nat.lt_succ_self _) _
      have hearlier : load (numbers (i + 2) ++ List.replicate (turns + 1) 0) (i + 2 - 2) =
          .ok (.ofNat (Nat.fib i)) := load_numbers (Nat.lt_add_of_pos_right Nat.two_pos) _
      have hstore : store (numbers (i + 2) ++ List.replicate (turns + 1) 0) (i + 2)
          (.ofNat (Nat.fib (i + 1)) + .ofNat (Nat.fib i)) =
            .ok (numbers (i + 3) ++ List.replicate turns 0) := by
        rw [hsum]
        exact store_numbers (i + 2) 0 _
      have hlength : i + 2 + (turns + 1) = i + 1 + 2 + turns := by omega
      rw [fill_succ hlater hearlier hstore, hlength]
      exact ih (i + 1)

/-- Before the first loop. -/
theorem filled_of_stores {count : Int32} {fib fib' fib'' : List Int32}
    (hnew : newArray count = .ok fib) (hfirst : store fib 0 0 = .ok fib')
    (hsecond : (if 1 < count then store fib' 1 1 else .ok fib') = .ok fib'') :
    filled count = fill (count.toInt.toNat - 2) 2 fib'' := by
  by_cases hcount : 1 < count
  · rw [if_pos hcount] at hsecond
    simp only [filled, hnew, hfirst, if_pos hcount, hsecond, bind, Except.bind]
  · rw [if_neg hcount, Except.ok.injEq] at hsecond
    simp only [filled, hnew, hfirst, if_neg hcount, hsecond, bind, Except.bind]

/-- All of the array. -/
theorem filled_eq {count : Int32} (hcount : 0 < count.toInt) :
    filled count = .ok (numbers count.toInt.toNat) := by
  obtain ⟨n, hn⟩ : ∃ n, count.toInt.toNat = n + 1 := ⟨count.toInt.toNat - 1, by omega⟩
  have hnew : newArray count = .ok (numbers 0 ++ List.replicate (n + 1) 0) := by
    rw [← hn]
    refine if_neg fun h => ?_
    rw [Int32.lt_iff_toInt_lt] at h
    exact absurd h (not_lt_of_gt hcount)
  have hfirst : store (numbers 0 ++ List.replicate (n + 1) 0) 0 0 =
      .ok (numbers 1 ++ List.replicate n 0) := store_numbers 0 0 _
  have hone : 1 < count ↔ 0 < n := by
    rw [Int32.lt_iff_toInt_lt, show (1 : Int32).toInt = 1 from rfl]
    omega
  cases n with
  | zero =>
      rw [filled_of_stores hnew hfirst (if_neg (mt hone.mp (Nat.lt_irrefl 0))), hn]
      rfl
  | succ n =>
      have hsecond : store (numbers 1 ++ List.replicate (n + 1) 0) 1 1 =
          .ok (numbers 2 ++ List.replicate n 0) := store_numbers 1 0 _
      have hfill : fill n 2 (numbers 2 ++ List.replicate n 0) = .ok (numbers (0 + 2 + n)) :=
        fill_eq n 0
      rw [filled_of_stores hnew hfirst ((if_pos (hone.mpr (Nat.succ_pos n))).trans hsecond), hn]
      refine hfill.trans (congrArg (fun n => Except.ok (numbers n)) ?_)
      omega

/-- **Java.**  All numbers are printed, each reduced to 32 bits. -/
theorem generateTraditional_eq {count : Int32} (hcount : 0 < count.toInt) :
    generateTraditional count =
      ((List.range count.toInt.toNat).map fun i => .ofNat (Nat.fib i), .returned) := by
  rw [generateTraditional, filled_eq hcount]
  refine drain_of_states (fun i => i) _ (fun i hi => ?_) (if_neg (Nat.lt_irrefl _))
  have hload : load (numbers count.toInt.toNat) i = .ok (.ofNat (Nat.fib i)) := by
    rw [← List.append_nil (numbers _)]
    exact load_numbers hi []
  rw [print, if_pos hi, hload]

/-- Without a first element there is nothing to print. -/
theorem generateTraditional_of_nonpos {count : Int32} (hcount : count.toInt ≤ 0) :
    ∃ e, e ≠ .undefinedBehaviour ∧ generateTraditional count = ([], .raised e) := by
  by_cases hneg : count < 0
  · have hfilled : filled count = .error (.negativeArraySize count.toInt) := by
      rw [filled, newArray, if_pos hneg]
      rfl
    exact ⟨.negativeArraySize count.toInt, nofun, by rw [generateTraditional, hfilled]⟩
  · have hzero : count = 0 := by
      rw [Int32.lt_iff_toInt_lt] at hneg
      exact Int32.toInt_inj.mp (le_antisymm hcount (not_lt.mp hneg))
    subst hzero
    exact ⟨.arrayIndexOutOfBounds 0 0, nofun, rfl⟩

end Java

/-! ## Scala -/

/-- Below a count, `int` counters do not wrap. -/
theorem toInt_counter {count : Int32} {i : ℕ} (hi : i ≤ count.toInt.toNat) :
    (Int32.ofNat i).toInt = i := by
  have hlt := count.toInt_lt
  refine Int32.toInt_ofNat_of_lt ?_
  omega

namespace Scala

/-- `fibonacciIterator(limit)`, with its fields. -/
structure FibonacciIterator where
  limit : Int32
  a : Int64
  b : Int64
  count : Int32
  deriving DecidableEq, Repr

/-- `fibonacciIterator(limit)`. -/
def fibonacciIterator (limit : Int32) : FibonacciIterator := ⟨limit, 0, 1, 0⟩

namespace FibonacciIterator

/-- `hasNext`. -/
def hasNext (it : FibonacciIterator) : Bool := it.count < it.limit

/-- `next()`. -/
def next (it : FibonacciIterator) : Except Thrown (Int64 × FibonacciIterator) :=
  if !it.hasNext then .error .noSuchElement
  else
    let result := it.a
    let next := it.a + it.b
    .ok (result, { it with a := it.b, b := next, count := it.count + 1 })

/-- One turn of `while (it.hasNext)`, with a call of `it.next()` in its body. -/
def resume (it : FibonacciIterator) : Resumed Int64 Thrown FibonacciIterator :=
  if it.hasNext then
    match it.next with
    | .ok (value, it) => .yielded value it
    | .error e => .raised e
  else .returned

/-- The iterator after `i` items; its pair is ahead of them. -/
def state (limit : Int32) (i : ℕ) : FibonacciIterator :=
  ⟨limit, .ofNat (Nat.fib i), .ofNat (Nat.fib (i + 1)), .ofNat i⟩

/-- There is a next number up to the limit. -/
theorem hasNext_state {limit : Int32} {i : ℕ} (hi : i ≤ limit.toInt.toNat) :
    (state limit i).hasNext = true ↔ i < limit.toInt.toNat := by
  rw [hasNext, decide_eq_true_iff, Int32.lt_iff_toInt_lt]
  show (Int32.ofNat i).toInt < limit.toInt ↔ _
  rw [toInt_counter hi]
  omega

end FibonacciIterator

/-- What `while (it.hasNext) it.next()` reads of `fibonacciIterator(limit)`. -/
def produced (limit : Int32) : List Int64 × Ending Thrown :=
  drain FibonacciIterator.resume (limit.toInt.toNat + 1) (fibonacciIterator limit)

/-- **Scala.**  All numbers are produced, each reduced to 64 bits. -/
theorem produced_eq (limit : Int32) :
    produced limit =
      ((List.range limit.toInt.toNat).map fun i => .ofNat (Nat.fib i), .returned) := by
  refine drain_of_states (FibonacciIterator.state limit) _ (fun i hi => ?_) ?_
  · have hnext : (FibonacciIterator.state limit i).hasNext = true :=
      (FibonacciIterator.hasNext_state hi.le).mpr hi
    have hcount : Int32.ofNat i + 1 = .ofNat (i + 1) := (Int32.ofNat_add i 1).symm
    rw [FibonacciIterator.resume, if_pos hnext, FibonacciIterator.next, hnext]
    simp only [FibonacciIterator.state, int64_fib_add, hcount]
    rfl
  · have hdone : ¬ (FibonacciIterator.state limit limit.toInt.toNat).hasNext = true :=
      fun h => Nat.lt_irrefl _ ((FibonacciIterator.hasNext_state le_rfl).mp h)
    exact if_neg hdone

end Scala

/-! ## Kotlin -/

namespace Kotlin

/-- The coroutine of `fibonacciSequence()`: at its start, or suspended at one of its three
`yield`. -/
inductive FibonacciSequence where
  | start
  | first (a b : Int64)
  | second (a b : Int64)
  | sum (a b next : Int64)
  deriving DecidableEq, Repr

namespace FibonacciSequence

/-- A turn of `while (true)`, up to `yield(next)`. -/
def turn (a b : Int64) : Resumed Int64 Thrown FibonacciSequence :=
  let next := a + b
  .yielded next (.sum a b next)

/-- From one `yield` to the next. -/
def resume : FibonacciSequence → Resumed Int64 Thrown FibonacciSequence
  | .start => .yielded 0 (.first 0 1)
  | .first a b => .yielded b (.second a b)
  | .second a b => turn a b
  | .sum _ b next => turn b next

/-- The coroutine after `i` items. -/
def state : ℕ → FibonacciSequence
  | 0 => .start
  | 1 => .first 0 1
  | 2 => .second 0 1
  | i + 3 => .sum (.ofNat (Nat.fib i)) (.ofNat (Nat.fib (i + 1))) (.ofNat (Nat.fib (i + 2)))

/-- There is no end to it. -/
theorem resume_state (i : ℕ) :
    (state i).resume = .yielded (.ofNat (Nat.fib i)) (state (i + 1)) := by
  match i with
  | 0 => rfl
  | 1 => rfl
  | i + 2 =>
      have hturn : (state (i + 2)).resume =
          turn (.ofNat (Nat.fib i)) (.ofNat (Nat.fib (i + 1))) := by
        cases i <;> rfl
      rw [hturn, turn, int64_fib_add]
      rfl

end FibonacciSequence

/-- The sequence that `take` returns: how many items are left, and the iterator they come from. -/
structure TakeSequence where
  left : Int32
  iterator : FibonacciSequence
  deriving DecidableEq, Repr

namespace TakeSequence

/-- One turn of a loop over the sequence. -/
def resume (s : TakeSequence) : Resumed Int64 Thrown TakeSequence :=
  if 0 < s.left then
    match s.iterator.resume with
    | .yielded value iterator => .yielded value ⟨s.left - 1, iterator⟩
    | .returned => .returned
    | .raised e => .raised e
  else .returned

/-- The sequence after `i` of `n` items. -/
def state (n : Int32) (i : ℕ) : TakeSequence :=
  ⟨.ofNat (n.toInt.toNat - i), FibonacciSequence.state i⟩

/-- The first state. -/
theorem state_zero {n : Int32} (hn : 0 ≤ n.toInt) : state n 0 = ⟨n, .start⟩ := by
  have hleft : Int32.ofNat (n.toInt.toNat - 0) = n := by
    refine Int32.toInt_inj.mp ?_
    rw [Nat.sub_zero, toInt_counter le_rfl, Int.toNat_of_nonneg hn]
  rw [state, hleft]
  rfl

/-- The `i`-th resumption. -/
theorem resume_state {n : Int32} {i : ℕ} (hi : i < n.toInt.toNat) :
    (state n i).resume = .yielded (.ofNat (Nat.fib i)) (state n (i + 1)) := by
  have hpos : 0 < Int32.ofNat (n.toInt.toNat - i) := by
    rw [Int32.lt_iff_toInt_lt, toInt_counter (Nat.sub_le _ _)]
    exact Int.ofNat_lt.mpr (Nat.sub_pos_of_lt hi)
  have hleft : Int32.ofNat (n.toInt.toNat - i) - 1 = .ofNat (n.toInt.toNat - (i + 1)) := by
    have hsplit : n.toInt.toNat - i = n.toInt.toNat - (i + 1) + 1 := by omega
    rw [hsplit, Int32.ofNat_add]
    exact Int32.add_sub_cancel _ 1
  rw [state, resume, if_pos hpos, FibonacciSequence.resume_state]
  simp only [hleft]
  rfl

end TakeSequence

/-- `fibonacciSequence().take(n).toList()`. -/
def produced (n : Int32) : List Int64 × Ending Thrown :=
  if n < 0 then
    ([], .raised (.illegalArgument s!"Requested element count {n} is less than zero."))
  else if n = 0 then ([], .returned)
  else drain TakeSequence.resume (n.toInt.toNat + 1) ⟨n, .start⟩

/-- **Kotlin.**  All numbers are produced, each reduced to 64 bits. -/
theorem produced_eq {n : Int32} (hn : 0 ≤ n.toInt) :
    produced n = ((List.range n.toInt.toNat).map fun i => .ofNat (Nat.fib i), .returned) := by
  have hneg : ¬ n < 0 := by
    rw [Int32.lt_iff_toInt_lt]
    exact not_lt.mpr hn
  rw [produced, if_neg hneg]
  by_cases hzero : n = 0
  · subst hzero
    rfl
  · rw [if_neg hzero, ← TakeSequence.state_zero hn]
    refine drain_of_states (TakeSequence.state n) _ (fun i hi => TakeSequence.resume_state hi) ?_
    show TakeSequence.resume ⟨.ofNat (n.toInt.toNat - n.toInt.toNat), _⟩ = _
    rw [Nat.sub_self]
    rfl

/-- A negative count is refused. -/
theorem produced_of_neg {n : Int32} (hn : n.toInt < 0) :
    ∃ e, e ≠ .undefinedBehaviour ∧ produced n = ([], .raised e) :=
  ⟨.illegalArgument _, nofun, if_pos (Int32.lt_iff_toInt_lt.mpr hn)⟩

end Kotlin

/-! ## Exact numbers -/

/-- A program produces exactly the `n` numbers that `fibonacci_yield(n)` yields, or throws before it
has produced anything else. -/
def ExactOrRefuses {w : Type*} [Add w] (W : FixedWidth w) (n : ℤ) (p : List w × Ending Thrown) :
    Prop :=
  (p.2 = .returned ∧ p.1.map W.toInt = (fibonacciYield n).1) ∨
    ((∃ e, e ≠ .undefinedBehaviour ∧ p.2 = .raised e) ∧
      p.1.map W.toInt <+: (fibonacciYield n).1)

section Exact

variable {w : Type*} [Add w] (W : FixedWidth w)

/-- A function that raises an exception has refused. -/
theorem exactOrRefuses_of_raised (n : ℤ) {p : List w × Ending Thrown}
    (hp : ∃ e, e ≠ .undefinedBehaviour ∧ p = ([], .raised e)) : ExactOrRefuses W n p := by
  obtain ⟨e, he, rfl⟩ := hp
  exact Or.inr ⟨⟨e, he, rfl⟩, List.nil_prefix⟩

/-- A program without a guard is exact up to the last number that fits. -/
theorem exactOrRefuses_iff {k : ℕ} (hlt : Nat.fib k < W.bound) (hle : W.bound ≤ Nat.fib (k + 1))
    {n : ℤ} {p : List w × Ending Thrown}
    (hp : p = ((List.range n.toNat).map fun i => W.ofNat (Nat.fib i), .returned)) :
    ExactOrRefuses W n p ↔ n ≤ k + 1 := by
  have hexact : p.1.map W.toInt = (fibonacciYield n).1 ↔ n.toNat ≤ k + 1 := by
    rw [hp, fibonacciYield_eq, List.map_map]
    exact W.map_exact_iff Nat.fib_mono hlt hle n.toNat
  have hreturned : p.2 = .returned := congrArg Prod.snd hp
  have hraised : ¬ ∃ e, e ≠ .undefinedBehaviour ∧ p.2 = .raised e := by
    rintro ⟨e, -, he⟩
    exact nomatch hreturned.symm.trans he
  constructor
  · rintro (⟨-, hitems⟩ | ⟨he, -⟩)
    · exact Int.toNat_le.mp (hexact.mp hitems)
    · exact absurd he hraised
  · intro hn
    exact Or.inl ⟨hreturned, hexact.mpr (Int.toNat_le.mpr hn)⟩

end Exact

/-- The last that fits into 32 bits with a sign. -/
theorem fib_int32 : Nat.fib 46 < 2 ^ 31 ∧ 2 ^ 31 ≤ Nat.fib 47 := by norm_num

/-- The last that fits into 64 bits with a sign. -/
theorem fib_int64 : Nat.fib 92 < 2 ^ 63 ∧ 2 ^ 63 ≤ Nat.fib 93 := by norm_num

/-- The last that fits into 64 bits without one. -/
theorem fib_uint64 : Nat.fib 93 < 2 ^ 64 ∧ 2 ^ 64 ≤ Nat.fib 94 := by norm_num

/-- **No wrapped value?**  The guard of the C++ generator stands where it should, so that it is
exact or refuses for every count; the others have no guard, and are exact just up to the last number
that fits into their width. -/
theorem exact_or_refuses (n : UInt32) (value : UInt64) (count : Int32) :
    ExactOrRefuses .uint64 n.toNat (Cpp.produced n value) ∧
      (ExactOrRefuses .int32 count.toInt (Java.generateTraditional count) ↔ count.toInt ≤ 47) ∧
      (ExactOrRefuses .int64 count.toInt (Scala.produced count) ↔ count.toInt ≤ 93) ∧
      (ExactOrRefuses .int64 count.toInt (Kotlin.produced count) ↔ count.toInt ≤ 93) := by
  refine ⟨?_, ?_, ?_, ?_⟩
  · by_cases hn : n.toNat ≤ 94
    · have hexact : ExactOrRefuses .uint64 n.toNat (Cpp.produced n value) ↔ (n.toNat : ℤ) ≤ 94 :=
        exactOrRefuses_iff .uint64 fib_uint64.1 fib_uint64.2 (Cpp.produced_eq hn value)
      exact hexact.mpr (Int.ofNat_le.mpr hn)
    · have hrefused := Cpp.produced_of_lt (Nat.lt_of_not_le hn) value
      exact exactOrRefuses_of_raised _ _ ⟨.runtimeError _, nofun, hrefused⟩
  · by_cases hcount : 0 < count.toInt
    · exact exactOrRefuses_iff .int32 fib_int32.1 fib_int32.2 (Java.generateTraditional_eq hcount)
    · have hrefused := Java.generateTraditional_of_nonpos (not_lt.mp hcount)
      exact iff_of_true (exactOrRefuses_of_raised _ _ hrefused) (by omega)
  · exact exactOrRefuses_iff .int64 fib_int64.1 fib_int64.2 (Scala.produced_eq count)
  · by_cases hcount : 0 ≤ count.toInt
    · exact exactOrRefuses_iff .int64 fib_int64.1 fib_int64.2 (Kotlin.produced_eq hcount)
    · have hrefused := Kotlin.produced_of_neg (not_le.mp hcount)
      exact iff_of_true (exactOrRefuses_of_raised _ _ hrefused) (by omega)

/-- The first count for which Java prints a wrong number, the last one. -/
theorem generateTraditional_wraps :
    (Java.generateTraditional 48).1.getLast? = some (-1323752223) ∧
      ¬ ExactOrRefuses .int32 48 (Java.generateTraditional 48) := by
  have hprinted : Java.generateTraditional 48 =
      ((List.range 48).map fun i => .ofNat (Nat.fib i), .returned) :=
    Java.generateTraditional_eq (by decide)
  refine ⟨?_, fun h => ?_⟩
  · rw [hprinted]
    decide +kernel
  · have hle := (exactOrRefuses_iff .int32 fib_int32.1 fib_int32.2 hprinted).mp h
    exact absurd hle (by decide)

end Coroutine

/-
# Producers and a consumer on lists (`bend-lang/shared_memory/producer_consumer.bend`)

`merge_producers` is the interleaving of the coroutines in `deep_recursion.bend`, and `append` puts
one stream after the other.  Whatever is merged in these ways, or by `schedule`, is a shuffle of the
inputs, and a sum over it is the sum over all of them (`shuffles_and_sums`).  The numbers are any
with a commutative addition, such as the 24-bit integers.
-/
import Cocurrency.Coroutine.BendSchedule
import Mathlib.Algebra.BigOperators.Group.List.Lemmas

namespace Lock.ProducerConsumer

open Shuffle Coroutine.Bend

variable {α : Type*}

/-- `consume_all`. -/
def consumeAll [Add α] : List α → α → α
  | [], acc => acc
  | x :: buf, acc => consumeAll buf (acc + x)

/-- `merge_producers`. -/
def mergeProducers : List α → List α → List α
  | [], p2 => p2
  | x :: p1, p2 => x :: mergeProducers p2 p1
termination_by p1 p2 => p1.length + p2.length

/-- `append`. -/
def append : List α → List α → List α
  | [], ys => ys
  | x :: xs, ys => x :: append xs ys

theorem mergeProducers_eq_interleave (p1 p2 : List α) :
    mergeProducers p1 p2 = interleave p1 p2 := by
  induction p1, p2 using mergeProducers.induct with
  | case1 p2 => rw [mergeProducers, interleave_nil]
  | case2 x p1 p2 ih => rw [mergeProducers, interleave_cons, ih]

theorem append_eq (xs ys : List α) : append xs ys = xs ++ ys := by
  induction xs with
  | nil => rfl
  | cons x xs ih =>
      unfold append
      rw [ih, List.cons_append]

theorem consumeAll_eq_sum [AddMonoid α] (buf : List α) (acc : α) :
    consumeAll buf acc = acc + buf.sum := by
  induction buf generalizing acc with
  | nil =>
      rw [List.sum_nil, add_zero]
      rfl
  | cons x buf ih =>
      unfold consumeAll
      rw [ih, List.sum_cons, add_assoc]

/-- The sum over a shuffle is the sum over its lists. -/
theorem sum_of_isShuffle [AddCommMonoid α] {ls : List (List α)} {out : List α}
    (h : IsShuffle ls out) : out.sum = (ls.map List.sum).sum := by
  rw [h.perm.sum_eq, List.sum_flatten]

/-- **Nothing is lost or reordered.**  The schedule of any coroutines, and two streams merged, or
one after the other, are shuffles of what they are made of.  Of any shuffle `sum_list` and
`consume_all` give the sum over all the lists. -/
theorem shuffles_and_sums [AddCommMonoid α] :
    (∀ coros : List (List α), IsShuffle coros (schedule coros)) ∧
    (∀ p1 p2 : List α, IsShuffle [p1, p2] (mergeProducers p1 p2) ∧
      IsShuffle [p1, p2] (append p1 p2)) ∧
    ∀ (ls : List (List α)) (out : List α), IsShuffle ls out →
      sumList out = (ls.map List.sum).sum ∧
        ∀ acc, consumeAll out acc = acc + (ls.map List.sum).sum := by
  constructor
  · intro coros
    exact (schedule_merge coros).isShuffle
  constructor
  · intro p1 p2
    constructor
    · rw [mergeProducers_eq_interleave]
      exact (Merge.pair (interleaving_interleave p1 p2)).isShuffle
    · rw [append_eq]
      exact (Merge.pair (Interleaving.append p1 p2)).isShuffle
  · intro ls out h
    constructor
    · rw [sumList_eq_sum, sum_of_isShuffle h]
    · intro acc
      rw [consumeAll_eq_sum, sum_of_isShuffle h]

end Lock.ProducerConsumer

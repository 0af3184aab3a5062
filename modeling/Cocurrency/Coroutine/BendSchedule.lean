/-
# Coroutines as lists of steps (`bend-lang/stackful_coroutine/deep_recursion.bend`)

`schedule` interleaves the first coroutine with the schedule of the others: it takes every other
step from the first one for as long as that has steps, however many others there are.  For two
coroutines this is round robin.  With more, the schedule is round robin just if all the coroutines
that have steps, but the last two, have exactly one (`schedule_roundRobin_iff`).

Nothing is lost and nothing changes its order, in any case (`schedule_merge`).
-/
import Cocurrency.Lib.RoundRobin
import Cocurrency.Lib.Shuffle
import Mathlib.Algebra.BigOperators.Group.List.Basic

namespace Coroutine.Bend

open RoundRobin Shuffle

variable {α : Type*}

/-- `interleave`. -/
def interleave : List α → List α → List α
  | [], ys => ys
  | x :: xs, ys => x :: interleave ys xs
termination_by xs ys => xs.length + ys.length

/-- `schedule`. -/
def schedule : List (List α) → List α
  | [] => []
  | coro :: coros => interleave coro (schedule coros)

/-- `sum_list`. -/
def sumList [Zero α] [Add α] : List α → α
  | [] => 0
  | x :: xs => x + sumList xs

theorem schedule_cons (coro : List α) (coros : List (List α)) :
    schedule (coro :: coros) = interleave coro (schedule coros) := rfl

/-! ## Nothing is lost -/

@[simp] theorem interleave_nil (ys : List α) : interleave [] ys = ys := by
  rw [interleave]

theorem interleave_cons (x : α) (xs ys : List α) :
    interleave (x :: xs) ys = x :: interleave ys xs := by
  rw [interleave]

@[simp] theorem interleave_nil_right (xs : List α) : interleave xs [] = xs := by
  cases xs with
  | nil => rw [interleave_nil]
  | cons x xs => rw [interleave_cons, interleave_nil]

/-- The arguments change places at each step, and the relation does not mind. -/
theorem interleaving_interleave (xs ys : List α) : Interleaving xs ys (interleave xs ys) := by
  induction xs, ys using interleave.induct with
  | case1 ys =>
      rw [interleave_nil]
      exact .nil_left ys
  | case2 x xs ys ih =>
      rw [interleave_cons]
      exact .left x ih.symm

/-- The schedule is merged from the coroutines. -/
theorem schedule_merge (coros : List (List α)) : Merge coros (schedule coros) := by
  induction coros with
  | nil => exact .nil
  | cons coro coros ih => exact .cons ih (interleaving_interleave coro (schedule coros))

theorem sumList_eq_sum [AddMonoid α] (xs : List α) : sumList xs = xs.sum := by
  induction xs with
  | nil => rfl
  | cons x xs ih =>
      unfold sumList
      rw [ih, List.sum_cons]

/-! ## Round robin -/

/-- Coroutines without steps do not count. -/
theorem schedule_filter (coros : List (List α)) :
    schedule (coros.filter fun coro => !coro.isEmpty) = schedule coros := by
  induction coros with
  | nil => rfl
  | cons coro coros ih =>
      cases coro with
      | nil =>
          rw [schedule_cons, interleave_nil]
          exact ih
      | cons x coro =>
          rw [List.filter_cons_of_pos rfl, schedule_cons, schedule_cons, ih]

/-- Of two coroutines the steps alternate. -/
theorem interleave_eq_roundRobin (xs ys : List α) : interleave xs ys = roundRobin [xs, ys] := by
  induction xs generalizing ys with
  | nil => rw [interleave_nil, roundRobin_nil_cons, roundRobin_singleton]
  | cons x xs ih =>
      cases ys with
      | nil =>
          rw [interleave_nil_right, ← roundRobin_filter]
          exact (roundRobin_singleton (x :: xs)).symm
      | cons y ys => rw [interleave_cons, interleave_cons, ih, roundRobin_pair]

/-- A coroutine of one step comes first, whatever follows. -/
theorem schedule_singleton_cons (x : α) (coros : List (List α)) :
    schedule ([x] :: coros) = x :: schedule coros := by
  rw [schedule_cons, interleave_cons, interleave_nil_right]

/-- All the coroutines that have steps, but the last two, have exactly one. -/
def SingleSteps (coros : List (List α)) : Prop :=
  ∀ n ∈ ((coros.map List.length).filter fun n => n != 0).dropLast.dropLast, n = 1

theorem singleSteps_iff (coros : List (List α)) :
    SingleSteps coros ↔
      ∀ coro ∈ (coros.filter fun coro => !coro.isEmpty).dropLast.dropLast, coro.length = 1 := by
  have hfilter : (coros.map List.length).filter (fun n => n != 0) =
      (coros.filter fun coro => !coro.isEmpty).map List.length := by
    rw [List.filter_map]
    congr 1
    apply List.filter_congr
    intro coro _
    cases coro <;> rfl
  unfold SingleSteps
  rw [hfilter, ← List.map_dropLast, ← List.map_dropLast, List.forall_mem_map]

/-- The same, if all of them have steps. -/
theorem schedule_eq_of_all_single {coros : List (List α)}
    (hsingle : ∀ coro ∈ coros.dropLast.dropLast, coro.length = 1) :
    schedule coros = roundRobin coros := by
  induction coros with
  | nil => rfl
  | cons coro coros ih =>
      match coros with
      | [] => rw [schedule_cons, schedule, interleave_nil_right, roundRobin_singleton]
      | [other] =>
          rw [schedule_cons, schedule_cons, schedule, interleave_nil_right,
            interleave_eq_roundRobin]
      | second :: third :: rest =>
          obtain ⟨x, rfl⟩ := List.length_eq_one_iff.mp (hsingle coro List.mem_cons_self)
          rw [schedule_singleton_cons, roundRobin_singleton_cons, ih]
          intro other hother
          exact hsingle other (List.mem_cons_of_mem [x] hother)

/-- A coroutine that has a second step takes it before the third of three coroutines takes its
first. -/
theorem length_eq_one_of_schedule_eq {coro : List α} {y z : α} {second third : List α}
    {coros : List (List α)} (hne : coro ≠ [])
    (hnodup : (coro :: (y :: second) :: (z :: third) :: coros).flatten.Nodup)
    (heq : schedule (coro :: (y :: second) :: (z :: third) :: coros) =
      roundRobin (coro :: (y :: second) :: (z :: third) :: coros)) : coro.length = 1 := by
  match coro with
  | [x] => rfl
  | x :: x' :: coro =>
      exfalso
      have hfirst : (schedule ((x :: x' :: coro) :: (y :: second) :: (z :: third) :: coros))[2]? =
          some x' := by
        rw [schedule_cons, schedule_cons, interleave_cons, interleave_cons, interleave_cons,
          interleave_cons]
        rfl
      have hround : (roundRobin ((x :: x' :: coro) :: (y :: second) :: (z :: third) ::
          coros))[2]? = some z := by
        rw [roundRobin_eq_append]
        rfl
      rw [heq, hround] at hfirst
      cases hfirst
      -- the two steps are in different lists
      rw [List.flatten_cons, List.nodup_append] at hnodup
      exact hnodup.2.2 z (by simp) z (by simp) rfl

/-- And so all but the last two have one step. -/
theorem all_single_of_schedule_eq {coros : List (List α)} (hsteps : ∀ coro ∈ coros, coro ≠ [])
    (hnodup : coros.flatten.Nodup) (heq : schedule coros = roundRobin coros) :
    ∀ coro ∈ coros.dropLast.dropLast, coro.length = 1 := by
  induction coros with
  | nil => exact List.forall_mem_nil _
  | cons coro coros ih =>
      match coros with
      | [] => exact List.forall_mem_nil _
      | [other] => exact List.forall_mem_nil _
      | [] :: third :: rest => exact absurd rfl (hsteps [] (by simp))
      | second :: [] :: rest => exact absurd rfl (hsteps [] (by simp))
      | (y :: second) :: (z :: third) :: rest =>
          have hone := length_eq_one_of_schedule_eq (hsteps coro List.mem_cons_self) hnodup heq
          obtain ⟨x, rfl⟩ := List.length_eq_one_iff.mp hone
          rw [schedule_singleton_cons, roundRobin_singleton_cons] at heq
          have hrest := ih (fun other hother => hsteps other (List.mem_cons_of_mem [x] hother))
            (List.nodup_append.mp hnodup).2.1 (List.cons.inj heq).2
          exact List.forall_mem_cons.mpr ⟨hone, hrest⟩

/-- Without the coroutines that have no steps, the steps are the same. -/
theorem flatten_filter (coros : List (List α)) :
    (coros.filter fun coro => !coro.isEmpty).flatten = coros.flatten := by
  induction coros with
  | nil => rfl
  | cons coro coros ih =>
      cases coro with
      | nil => exact ih
      | cons x coro =>
          show (x :: coro) ++ (coros.filter fun coro => !coro.isEmpty).flatten = _
          rw [ih]
          rfl

/-- Under the condition the order is round robin. -/
theorem schedule_eq_roundRobin {coros : List (List α)} (hsingle : SingleSteps coros) :
    schedule coros = roundRobin coros := by
  rw [← schedule_filter, ← roundRobin_filter]
  exact schedule_eq_of_all_single ((singleSteps_iff coros).mp hsingle)

/-- If no step comes twice, the order is round robin under the condition only. -/
theorem schedule_eq_roundRobin_iff {coros : List (List α)} (hnodup : coros.flatten.Nodup) :
    schedule coros = roundRobin coros ↔ SingleSteps coros := by
  constructor
  · intro heq
    rw [← schedule_filter, ← roundRobin_filter] at heq
    rw [← flatten_filter] at hnodup
    apply (singleSteps_iff coros).mpr
    apply all_single_of_schedule_eq _ hnodup heq
    intro coro hcoro hnil
    rw [hnil] at hcoro
    have hempty := (List.mem_filter.mp hcoro).2
    cases hempty
  · exact schedule_eq_roundRobin

theorem interleave_map {β : Type*} (f : α → β) (xs ys : List α) :
    interleave (xs.map f) (ys.map f) = (interleave xs ys).map f := by
  induction xs, ys using interleave.induct with
  | case1 ys => rw [List.map_nil, interleave_nil, interleave_nil]
  | case2 x xs ys ih => rw [List.map_cons, interleave_cons, interleave_cons, List.map_cons, ih]

/-- The schedule does not look at the steps. -/
theorem schedule_map {β : Type*} (f : α → β) (coros : List (List α)) :
    schedule (coros.map (List.map f)) = (schedule coros).map f := by
  induction coros with
  | nil => rfl
  | cons coro coros ih => rw [List.map_cons, schedule_cons, schedule_cons, ih, interleave_map]

/-- **When the schedule is round robin.**  The places of the steps (the number of a coroutine, and a
position in it) tell all steps apart, and the schedule of the places says where the steps of the
schedule come from.  It is in the order of round robin if and only if all the coroutines that have
steps, but the last two, have exactly one; and then the steps themselves are in that order. -/
theorem schedule_roundRobin_iff (coros : List (List α)) :
    (schedule (places coros)).map (elemAt coros) = (schedule coros).map some ∧
    (schedule (places coros) = roundRobin (places coros) ↔ SingleSteps coros) ∧
    (SingleSteps coros → schedule coros = roundRobin coros) := by
  constructor
  · rw [← schedule_map, elemAt_places, schedule_map]
  constructor
  · rw [schedule_eq_roundRobin_iff (nodup_flatten_places coros)]
    unfold SingleSteps
    rw [length_places]
  · exact schedule_eq_roundRobin

/-- Of three coroutines the first one takes its second step before the third has had a turn. -/
theorem schedule_three_ne :
    schedule [[1, 2], [3, 4], [5, 6]] ≠ roundRobin [[1, 2], [3, 4], [5, 6]] := by
  have hschedule : schedule [[1, 2], [3, 4], [5, 6]] = [1, 3, 2, 5, 4, 6] := by
    simp [schedule, interleave_cons]
  rw [hschedule]
  decide

end Coroutine.Bend

/-
# The same operations on a stack and on a queue

Items are put into a container and taken out of it, and an operation that finds it empty takes
nothing.  A stack gives out the item that was put last of those still in it, a queue the one that
was put first.

Read as brackets, a `take` closes the `put` whose item a stack would give out
(`stack_eq_cons_iff`).  A queue gives out the items in the order in which they were put
(`queue_eq_drop`).  So the two give out the same exactly if the `put` that a `take` closes is that
of the item whose turn it is (`inTurn_iff`).
-/
import Mathlib.Data.List.Basic

namespace StackQueue

variable {α : Type*}

/-- The operations of both. -/
inductive Op (α : Type*) where
  | put (a : α)
  | take

/-! ## Containers -/

/-- A stack after the operations. -/
def stackFrom : List α → List (Op α) → List α
  | s, [] => s
  | s, .put a :: ops => stackFrom (a :: s) ops
  | s, .take :: ops => stackFrom s.tail ops

/-- A queue after the operations. -/
def queueFrom : List α → List (Op α) → List α
  | q, [] => q
  | q, .put a :: ops => queueFrom (q ++ [a]) ops
  | q, .take :: ops => queueFrom q.tail ops

/-- The items that are put. -/
def puts : List (Op α) → List α
  | [] => []
  | .put a :: ops => a :: puts ops
  | .take :: ops => puts ops

/-- How many operations take an item, if there are `held` at first. -/
def takenFrom : ℕ → List (Op α) → ℕ
  | _, [] => 0
  | held, .put _ :: ops => takenFrom (held + 1) ops
  | 0, .take :: ops => takenFrom 0 ops
  | held + 1, .take :: ops => takenFrom held ops + 1

/-- What is taken from an empty stack. -/
def stack (ops : List (Op α)) : List α := stackFrom [] ops

/-- What is taken from an empty queue. -/
def queue (ops : List (Op α)) : List α := queueFrom [] ops

/-- How many operations take an item out of a container that is empty at first. -/
def taken (ops : List (Op α)) : ℕ := takenFrom 0 ops

theorem stackFrom_append (s : List α) (ops more : List (Op α)) :
    stackFrom s (ops ++ more) = stackFrom (stackFrom s ops) more := by
  induction ops generalizing s with
  | nil => rfl
  | cons op ops ih => cases op <;> exact ih _

/-- A stack and a queue hold equally many items. -/
theorem length_stackFrom {s q : List α} (h : s.length = q.length) (ops : List (Op α)) :
    (stackFrom s ops).length = (queueFrom q ops).length := by
  induction ops generalizing s q with
  | nil => exact h
  | cons op ops ih =>
      cases op with
      | put a => exact ih (by simp [h])
      | take => exact ih (by simp [h])

/-- A queue holds what has been put, without what has been taken. -/
theorem queueFrom_eq_drop (q : List α) (ops : List (Op α)) :
    queueFrom q ops = (q ++ puts ops).drop (takenFrom q.length ops) := by
  induction ops generalizing q with
  | nil => simp [queueFrom, puts, takenFrom]
  | cons op ops ih =>
      cases op with
      | put a =>
          unfold queueFrom puts takenFrom
          rw [ih, List.append_assoc, List.length_append]
          rfl
      | take =>
          unfold queueFrom puts
          rw [ih]
          cases q <;> rfl

theorem queue_eq_drop (ops : List (Op α)) : queue ops = (puts ops).drop (taken ops) :=
  queueFrom_eq_drop [] ops

/-! ## Brackets -/

/-- Every `put` is closed by a `take`, and every `take` closes a `put`. -/
inductive Balanced : List (Op α) → Prop
  | nil : Balanced []
  | close {ops inner : List (Op α)} (a : α) :
      Balanced ops → Balanced inner → Balanced (ops ++ .put a :: (inner ++ [.take]))

/-- Balanced operations leave a stack as it was. -/
theorem stackFrom_balanced {ops : List (Op α)} (h : Balanced ops) (s : List α) :
    stackFrom s ops = s := by
  induction h generalizing s with
  | nil => rfl
  | close a _ _ ih ih' =>
      rw [stackFrom_append, ih]
      unfold stackFrom
      rw [stackFrom_append, ih']
      rfl

/-- The top of a stack is the item of the last `put` that has not been closed, and below it is the
stack before this `put`. -/
theorem stack_eq_cons_iff (ops : List (Op α)) (a : α) (s : List α) :
    stack ops = a :: s ↔
      ∃ pre mid, ops = pre ++ .put a :: mid ∧ Balanced mid ∧ stack pre = s := by
  constructor
  · intro h
    induction hn : ops.length using Nat.strongRecOn generalizing ops a s with
    | ind n ih =>
        obtain rfl | ⟨init, op, rfl⟩ := List.eq_nil_or_concat ops
        · cases h
        rw [List.concat_eq_append] at *
        have hlen : init.length < n := by
          rw [List.length_append] at hn
          simp at hn
          omega
        unfold stack at h
        rw [stackFrom_append] at h
        cases op with
        | put b =>
            unfold stackFrom stackFrom at h
            cases h
            exact ⟨init, [], rfl, .nil, rfl⟩
        | take =>
            -- what is on top now was below the item that has been taken
            have htail : (stack init).tail = a :: s := h
            obtain ⟨b, hinit⟩ : ∃ b, stack init = b :: a :: s := by
              cases hs : stack init with
              | nil =>
                  rw [hs] at htail
                  cases htail
              | cons b rest =>
                  rw [hs] at htail
                  exact ⟨b, congrArg (b :: ·) htail⟩
            obtain ⟨pre, inner, rfl, hinner, hpre⟩ := ih _ hlen init b (a :: s) hinit rfl
            have hlen' : pre.length < n := by
              rw [List.length_append] at hlen
              omega
            obtain ⟨pre, mid, rfl, hmid, hs⟩ := ih _ hlen' pre a s hpre rfl
            exact ⟨pre, mid ++ .put b :: (inner ++ [.take]), by simp, .close b hmid hinner, hs⟩
  · rintro ⟨pre, mid, rfl, hmid, rfl⟩
    have hput : stack (pre ++ .put a :: mid) = stackFrom (a :: stack pre) mid :=
      stackFrom_append [] pre (.put a :: mid)
    rw [hput, stackFrom_balanced hmid]

/-- Every `take` that closes a `put` closes the one of the item whose turn it is. -/
def InTurn (ops : List (Op α)) : Prop :=
  ∀ pre a mid post, ops = pre ++ .put a :: (mid ++ .take :: post) → Balanced mid →
    (puts (pre ++ .put a :: mid))[taken (pre ++ .put a :: mid)]? = some a

/-- A stack and a queue give out the same item next, or none. -/
theorem heads_eq_iff (ops : List (Op α)) :
    (stack ops).head? = (queue ops).head? ↔
      ∀ pre a mid, ops = pre ++ .put a :: mid → Balanced mid →
        (puts ops)[taken ops]? = some a := by
  have hqueue : (queue ops).head? = (puts ops)[taken ops]? := by
    rw [queue_eq_drop, List.head?_drop]
  rw [hqueue]
  constructor
  · rintro h pre a mid rfl hmid
    have htop := (stack_eq_cons_iff (pre ++ .put a :: mid) a (stack pre)).mpr
      ⟨pre, mid, rfl, hmid, rfl⟩
    rw [← h, htop]
    rfl
  · intro h
    cases hs : stack ops with
    | nil =>
        have hempty : (queue ops).length = 0 := by
          rw [queue, ← length_stackFrom rfl, ← stack, hs]
          rfl
        rw [← hqueue, List.length_eq_zero_iff.mp hempty]
    | cons a s =>
        obtain ⟨pre, mid, hops, hmid, -⟩ := (stack_eq_cons_iff ops a s).mp hs
        exact (h pre a mid hops hmid).symm

/-- **When a stack and a queue give out the same items.** -/
theorem inTurn_iff (ops : List (Op α)) :
    InTurn ops ↔ ∀ before after, ops = before ++ .take :: after →
      (stack before).head? = (queue before).head? := by
  constructor
  · intro h before after hops
    rw [heads_eq_iff]
    rintro pre a mid rfl hmid
    exact h pre a mid after (by simp [hops]) hmid
  · intro h pre a mid post hops hmid
    have hheads := h (pre ++ .put a :: mid) post (by simp [hops])
    rw [heads_eq_iff] at hheads
    exact hheads pre a mid rfl hmid

end StackQueue

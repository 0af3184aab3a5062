/-
# Deadlocks (`cpp/shared_memory_lock/deadlock.cpp`, `BankAccount.java`, `go/shared_memory/main.go`)

In the C++ program and in `demonstrateDeadlock` of the Java one two threads acquire two locks in
opposite orders, in the Go program all goroutines acquire theirs in one order.

* `opposite_orders` : two threads with opposite orders come to a halt when they have returned or
  when each has one lock and waits for the other; both happen, and which of them does is decided by
  who makes the first two acquisitions;
* `fixed_order` : with one order for all everybody returns.
-/
import Cocurrency.Lib.LockOrder

namespace Lock

namespace DeadlockDemo

open LockOrder

/-! ## Opposite orders -/

/-- `thread_a` and `thread_b`, or `T1` and `T2`. -/
inductive Thread where
  | A
  | B
  deriving DecidableEq

instance : Fintype Thread where
  elems := {.A, .B}
  complete t := by cases t <;> decide

/-- `mtx_a` and `mtx_b`, or the monitors of `accountA` and `accountB`. -/
inductive Mutex where
  | a
  | b
  deriving DecidableEq

/-- In which order the mutexes are locked. -/
def locks : Thread → List Mutex
  | .A => [.a, .b]
  | .B => [.b, .a]

theorem nodup_locks (t : Thread) : (locks t).Nodup := by
  cases t <;> decide

/-- Each thread has its first lock and waits for the other. -/
def Deadlocked (s : State Thread Mutex) : Prop :=
  s.phase .A = .acquiring [.a] [.b] ∧ s.phase .B = .acquiring [.b] [.a]

/-- The thread that acquires a lock. -/
def Event.acquirer : LockOrder.Event Thread Mutex → Option Thread
  | .acquired t _ => some t
  | _ => none

/-- Who has acquired a lock, one time after the other. -/
def acquisitions (h : List (LockOrder.Event Thread Mutex)) : List Thread :=
  h.filterMap Event.acquirer

variable {s : State Thread Mutex} {h : List (LockOrder.Event Thread Mutex)}

theorem count_acquisitions (t : Thread) (h : List (LockOrder.Event Thread Mutex)) :
    (acquisitions h).count t = (acquiredBy t h).length := by
  induction h with
  | nil => rfl
  | cons e h ih =>
      cases e with
      | acquired u l =>
          have hleft : acquisitions (.acquired u l :: h) = u :: acquisitions h := rfl
          rw [hleft, List.count_cons, ih]
          by_cases hu : u = t <;> simp [acquiredBy, LockOrder.Event.acquiredBy, hu]
      | worked u => exact ih
      | released u l => exact ih

/-- A thread that waits has no lock yet, or one. -/
theorem waiting_cases {t : Thread} (hok : Ok locks s) {l : Mutex}
    (hwants : (s.phase t).wants = some l) :
    s.phase t = .acquiring [] (locks t) ∨
      ∃ m, locks t = [m, l] ∧ s.phase t = .acquiring [m] [l] := by
  have hwithin := hok.within t
  generalize s.phase t = phase at hwants hwithin ⊢
  cases phase with
  | releasing held => cases hwants
  | acquiring held toLock =>
      cases toLock with
      | nil => cases hwants
      | cons first toLock =>
          cases hwants
          have hwithin : held.reverse ++ l :: toLock = locks t := hwithin
          have hlength := congrArg List.length hwithin
          have htwo : (locks t).length = 2 := by cases t <;> rfl
          rw [htwo, List.length_append, List.length_reverse, List.length_cons] at hlength
          rcases held with _ | ⟨m, held⟩
          · exact Or.inl (by rw [← hwithin]; rfl)
          · rw [List.length_cons] at hlength
            obtain rfl : held = [] := List.length_eq_zero_iff.mp (by omega)
            obtain rfl : toLock = [] := List.length_eq_zero_iff.mp (by omega)
            exact Or.inr ⟨m, hwithin.symm, rfl⟩

/-- Where nobody can go on, a thread has returned, or it has its first lock and waits for the other
thread, which has the second. -/
theorem stuck_thread (hok : Ok locks s) (hstuck : ∀ t, LockOrder.step s t = none) (t : Thread) :
    s.phase t = .releasing [] ∨ ∃ m l u, locks t = [m, l] ∧ s.phase t = .acquiring [m] [l] ∧
      s.holder l = some u ∧ u ≠ t := by
  rcases stuck_cases (hstuck t) with hreturned | ⟨l, u, hwants, hheld⟩
  · exact Or.inl hreturned
  · have hmem := (hok.holder_iff l u).mp hheld
    rcases waiting_cases hok hwants with hphase | ⟨m, hlocks, hphase⟩
    · -- `u` waits, too, and has begun with another lock
      exfalso
      obtain ⟨l', w, hwants', -⟩ := (stuck_cases (hstuck u)).resolve_left (hok.not_returned hheld)
      rcases waiting_cases hok hwants' with hphase' | ⟨m', hlocks', hphase'⟩
      · rw [hphase'] at hmem
        cases hmem
      · rw [hphase'] at hmem
        rw [hphase] at hwants
        obtain rfl : l = m' := List.mem_singleton.mp hmem
        cases t <;> cases u <;> cases hwants <;> cases hlocks'
        all_goals
          rw [hphase] at hphase'
          cases hphase'
    · refine Or.inr ⟨m, l, u, hlocks, hphase, hheld, ?_⟩
      rintro rfl
      rw [hphase] at hmem
      obtain rfl : l = m := List.mem_singleton.mp hmem
      have hnodup := nodup_locks u
      rw [hlocks] at hnodup
      exact absurd List.mem_cons_self (List.nodup_cons.mp hnodup).1

/-- Where nobody can go on, both have returned or each waits for the other. -/
theorem returned_or_deadlocked (hok : Ok locks s) (hstuck : ∀ t, LockOrder.step s t = none) :
    Returned s ∨ Deadlocked s := by
  have hother : ∀ t u : Thread, u ≠ t → ∀ l, s.holder l = some u →
      ∃ m l, locks u = [m, l] ∧ s.phase u = .acquiring [m] [l] := by
    intro t u _ l hheld
    obtain ⟨m, l, _, hlocks, hphase, -⟩ :=
      (stuck_thread hok hstuck u).resolve_left (hok.not_returned hheld)
    exact ⟨m, l, hlocks, hphase⟩
  by_cases hreturned : Returned s
  · exact Or.inl hreturned
  · obtain ⟨t, ht⟩ := not_forall.mp hreturned
    obtain ⟨m, l, u, hlocks, hphase, hheld, hne⟩ := (stuck_thread hok hstuck t).resolve_left ht
    obtain ⟨m', l', hlocks', hphase'⟩ := hother t u hne l hheld
    refine Or.inr ?_
    cases t with
    | A =>
        cases u with
        | A => exact absurd rfl hne
        | B =>
            cases hlocks
            cases hlocks'
            exact ⟨hphase, hphase'⟩
    | B =>
        cases u with
        | A =>
            cases hlocks
            cases hlocks'
            exact ⟨hphase', hphase⟩
        | B => exact absurd rfl hne

theorem stuck_of_deadlocked (hok : Ok locks s) (hdead : Deadlocked s) (t : Thread) :
    LockOrder.step s t = none := by
  obtain ⟨hA, hB⟩ := hdead
  have ha : s.holder .a = some .A := by
    rw [hok.holder_iff, hA]
    exact List.mem_cons_self
  have hb : s.holder .b = some .B := by
    rw [hok.holder_iff, hB]
    exact List.mem_cons_self
  cases t with
  | A => simp [LockOrder.step, hA, hb]
  | B => simp [LockOrder.step, hB, ha]

/-! ## The first two acquisitions -/

/-- Where each thread has acquired one lock, each waits for the other. -/
theorem deadlocked_of_one {h : List (LockOrder.Event Thread Mutex)}
    (hr : Run LockOrder.step anyStep (LockOrder.start locks) h s)
    (hA : (acquisitions h).count .A = 1) (hB : (acquisitions h).count .B = 1) : Deadlocked s := by
  obtain ⟨hok, hacquired⟩ := acquiredBy_run nodup_locks hr
  have hone : ∀ t, (acquisitions h).count t = 1 →
      ∃ m l, locks t = [m, l] ∧ s.phase t = .acquiring [m] [l] := by
    intro t hcount
    rw [count_acquisitions, hacquired t] at hcount
    have hwithin := hok.within t
    have htwo : (locks t).length = 2 := by cases t <;> rfl
    generalize s.phase t = phase at hcount hwithin ⊢
    cases phase with
    | releasing held =>
        rw [Phase.acquired, htwo] at hcount
        cases hcount
    | acquiring held toLock =>
        have hwithin : held.reverse ++ toLock = locks t := hwithin
        rw [Phase.acquired, List.length_reverse] at hcount
        obtain ⟨m, rfl⟩ := List.length_eq_one_iff.mp hcount
        rw [← hwithin, List.length_append, List.length_reverse, hcount] at htwo
        obtain ⟨l, rfl⟩ := List.length_eq_one_iff.mp (Nat.add_left_cancel htwo)
        exact ⟨m, l, hwithin.symm, rfl⟩
  obtain ⟨m, l, hlocks, hphase⟩ := hone .A hA
  obtain ⟨m', l', hlocks', hphase'⟩ := hone .B hB
  cases hlocks
  cases hlocks'
  exact ⟨hphase, hphase'⟩

theorem count_returned (hr : Run LockOrder.step anyStep (LockOrder.start locks) h s)
    (hreturned : Returned s) (t : Thread) : (acquisitions h).count t = 2 := by
  rw [count_acquisitions, (acquiredBy_run nodup_locks hr).2 t, hreturned t]
  cases t <;> rfl

theorem count_deadlocked (hr : Run LockOrder.step anyStep (LockOrder.start locks) h s)
    (hdead : Deadlocked s) (t : Thread) : (acquisitions h).count t = 1 := by
  rw [count_acquisitions, (acquiredBy_run nodup_locks hr).2 t]
  cases t with
  | A => rw [hdead.1]; rfl
  | B => rw [hdead.2]; rfl

theorem length_acquisitions (l : List Thread) : l.length = l.count .A + l.count .B := by
  induction l with
  | nil => rfl
  | cons t l ih => cases t <;> simp [ih] <;> omega

/-- A run in which both return begins with two acquisitions of one thread. -/
theorem first_two_of_returned (hr : Run LockOrder.step anyStep (LockOrder.start locks) h s)
    (hreturned : Returned s) : ∃ t, (acquisitions h).take 2 = [t, t] := by
  have hlength := length_acquisitions (acquisitions h)
  rw [count_returned hr hreturned, count_returned hr hreturned] at hlength
  obtain ⟨t, u, rest, hall⟩ : ∃ t u rest, acquisitions h = [t, u] ++ rest := by
    match hl : acquisitions h with
    | [] | [_] =>
        rw [hl] at hlength
        cases hlength
    | t :: u :: rest => exact ⟨t, u, rest, rfl⟩
  by_cases hsame : t = u
  · subst hsame
    exact ⟨t, by rw [hall]; rfl⟩
  -- otherwise the run would have come to an end there
  exfalso
  obtain ⟨h₁, h₂, rfl, htwo, -⟩ := List.filterMap_eq_append_iff.mp hall
  obtain ⟨s₁, hr₁, hr₂⟩ := hr.split_append
  have hcount : ∀ v, (acquisitions h₁).count v = 1 := by
    intro v
    rw [acquisitions, htwo]
    cases t <;> cases u <;> cases v <;> first | rfl | exact absurd rfl hsame
  have hdead := deadlocked_of_one hr₁ (hcount .A) (hcount .B)
  have hstuck := stuck_of_deadlocked (acquiredBy_run nodup_locks hr₁).1 hdead
  cases h₂ with
  | nil =>
      have hmany := count_returned hr hreturned .A
      rw [List.append_nil, hcount] at hmany
      cases hmany
  | cons e h₂ =>
      obtain ⟨v, s₂, hs, -⟩ := hr₂.first_step
      rw [hstuck v] at hs
      cases hs

/-- **Opposite orders.** -/
theorem opposite_orders :
    Halts LockOrder.step (LockOrder.start locks) ∧
    (∃ h s, Run LockOrder.step anyStep (LockOrder.start locks) h s ∧ Returned s) ∧
    (∃ h s, Run LockOrder.step anyStep (LockOrder.start locks) h s ∧ Deadlocked s) ∧
    ∀ h s, Run LockOrder.step anyStep (LockOrder.start locks) h s →
      (∀ t, LockOrder.step s t = none) →
        (Returned s ∧ ∃ t, (acquisitions h).take 2 = [t, t]) ∨
        (Deadlocked s ∧ (∃ t, Relation.TransGen (WaitsFor s) t t) ∧
          ∃ t u, t ≠ u ∧ acquisitions h = [t, u]) := by
  refine ⟨halts _, ?_, ?_, fun h s hr hstuck => ?_⟩
  · refine ⟨_, _, run_of_replay LockOrder.step
      [.A, .A, .A, .A, .A, .B, .B, .B, .B, .B] rfl, fun t => ?_⟩
    cases t <;> rfl
  · exact ⟨_, _, run_of_replay LockOrder.step [.A, .B] rfl, rfl, rfl⟩
  · have hok := (acquiredBy_run nodup_locks hr).1
    rcases returned_or_deadlocked hok hstuck with hreturned | hdead
    · exact Or.inl ⟨hreturned, first_two_of_returned hr hreturned⟩
    · have hnot : ¬ Returned s := by
        intro hreturned
        have hA := hdead.1
        rw [hreturned .A] at hA
        cases hA
      refine Or.inr ⟨hdead, exists_cycle hok hstuck hnot, ?_⟩
      have hlength := length_acquisitions (acquisitions h)
      have hcount := count_deadlocked hr hdead
      rw [hcount, hcount] at hlength
      obtain ⟨t, u, htu⟩ := List.length_eq_two.mp hlength
      refine ⟨t, u, ?_, htu⟩
      rintro rfl
      have htwice := hcount t
      rw [htu] at htwice
      simp at htwice

/-! ## One order -/

/-- **One order for all.**  Any goroutines, each with any mutexes; `rank` is the order. -/
theorem fixed_order {τ ℓ κ : Type*} [DecidableEq τ] [DecidableEq ℓ] [Fintype τ] [LinearOrder κ]
    (rank : ℓ → κ) (locks : τ → List ℓ)
    (hsorted : ∀ t, (locks t).Pairwise fun l m => rank l < rank m) :
    Halts LockOrder.step (LockOrder.start locks) ∧
    ∀ h s, Run LockOrder.step anyStep (LockOrder.start locks) h s →
      (∀ t, ¬ Relation.TransGen (LockOrder.WaitsFor s) t t) ∧
      (∀ t, acquiredBy t h <+: locks t) ∧
      ((∀ t, LockOrder.step s t = none) →
        Returned s ∧ (∀ l, s.holder l = none) ∧ ∀ t, acquiredBy t h = locks t) := by
  have hnodup : ∀ t, (locks t).Nodup := fun t =>
    (hsorted t).imp fun hlt => ne_of_apply_ne rank hlt.ne
  refine ⟨halts _, fun h s hr => ?_⟩
  obtain ⟨hok, hacquired⟩ := acquiredBy_run hnodup hr
  refine ⟨WaitFor.not_transGen_waitsFor (hok.ordered hsorted), fun t => ?_, fun hstuck => ?_⟩
  · rw [hacquired t]
    exact hok.acquired_le t
  · have hreturned := returned_of_ordered hsorted hok hstuck
    refine ⟨hreturned, fun l => ?_, fun t => by rw [hacquired t, hreturned t, Phase.acquired]⟩
    by_contra hheld
    obtain ⟨t, ht⟩ := Option.ne_none_iff_exists'.mp hheld
    exact hok.not_returned ht (hreturned t)

/-- The mutexes of the Go program, both goroutines with `mu1` before `mu2`. -/
theorem fixed_order_go :
    Halts LockOrder.step (LockOrder.start fun _ : Fin 2 => [1, 2]) ∧
    ∀ h s, Run LockOrder.step anyStep (LockOrder.start fun _ : Fin 2 => [1, 2]) h s →
      (∀ t, ¬ Relation.TransGen (LockOrder.WaitsFor s) t t) ∧
      (∀ t, acquiredBy t h <+: [1, 2]) ∧
      ((∀ t, LockOrder.step s t = none) →
        Returned s ∧ (∀ l, s.holder l = none) ∧ ∀ t, acquiredBy t h = [1, 2]) :=
  fixed_order (fun l : ℕ => l) (fun _ => [1, 2]) fun _ => by decide

end DeadlockDemo

end Lock

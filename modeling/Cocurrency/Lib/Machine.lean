/-
# Machines that answer

A machine is a function `σ → op → result × σ`: from a state, each operation has an answer and leads
to a state.

* `Machine.results` : the answers to a sequence of operations;
* `Machine.results_eq_iff` : two machines give the same answers to a sequence if and only if they
  do so to each of its operations in turn;
* `Machine.results_rel_iff` : the same for machines that are related as long as their answers are
  the same;
* `Machine.simulate` : two machines give the same answers if a relation of their states says so of
  one operation.
-/
import Mathlib.Data.List.Basic

namespace Machine

variable {σ τ op result : Type*}

/-- The state after some operations. -/
def after (step : σ → op → result × σ) : σ → List op → σ
  | s, [] => s
  | s, o :: ops => after step (step s o).2 ops

/-- The answers to a sequence of operations. -/
def results (step : σ → op → result × σ) : σ → List op → List result
  | _, [] => []
  | s, o :: ops => (step s o).1 :: results step (step s o).2 ops

theorem results_append (step : σ → op → result × σ) (s : σ) (ops more : List op) :
    results step s (ops ++ more) = results step s ops ++ results step (after step s ops) more := by
  induction ops generalizing s with
  | nil => rfl
  | cons o ops ih => exact congrArg ((step s o).1 :: ·) (ih _)

theorem after_append (step : σ → op → result × σ) (s : σ) (ops more : List op) :
    after step s (ops ++ more) = after step (after step s ops) more := by
  induction ops generalizing s with
  | nil => rfl
  | cons o ops ih => exact ih _

/-- **The invariant rule.** -/
theorem after_invariant {step : σ → op → result × σ} (P : σ → Prop)
    (hkeep : ∀ s o, P s → P (step s o).2) {s : σ} (h : P s) (ops : List op) :
    P (after step s ops) := by
  induction ops generalizing s with
  | nil => exact h
  | cons o ops ih => exact ih (hkeep s o h)

/-- **The simulation rule.**  If each operation has the same answer in related states and leads to
related states, so has each sequence of operations. -/
theorem simulate {f : σ → op → result × σ} {g : τ → op → result × τ} (R : σ → τ → Prop)
    (hstep : ∀ s t o, R s t → (f s o).1 = (g t o).1 ∧ R (f s o).2 (g t o).2) {s : σ} {t : τ}
    (h : R s t) (ops : List op) :
    results f s ops = results g t ops ∧ R (after f s ops) (after g t ops) := by
  induction ops generalizing s t with
  | nil => exact ⟨rfl, h⟩
  | cons o ops ih =>
      obtain ⟨hanswer, hnext⟩ := hstep s t o h
      obtain ⟨hrest, hend⟩ := ih hnext
      refine ⟨?_, hend⟩
      unfold results
      rw [hanswer, hrest]

/-- Two machines give the same answers if they do so to each operation in turn. -/
theorem results_eq_iff (f : σ → op → result × σ) (g : τ → op → result × τ) (s : σ) (t : τ)
    (ops : List op) :
    results f s ops = results g t ops ↔
      ∀ before o rest, ops = before ++ o :: rest →
        (f (after f s before) o).1 = (g (after g t before) o).1 := by
  induction ops generalizing s t with
  | nil =>
      constructor
      · intro _ before o rest h
        simp at h
      · intro _
        rfl
  | cons o ops ih =>
      unfold results
      rw [List.cons.injEq, ih]
      constructor
      · rintro ⟨hfirst, hrest⟩ before o' rest h
        cases before with
        | nil =>
            cases h
            exact hfirst
        | cons b before =>
            cases h
            exact hrest before o' rest rfl
      · intro h
        refine ⟨h [] o ops rfl, fun before o' rest hops => ?_⟩
        exact h (o :: before) o' rest (by rw [hops]; rfl)

/-- **Agreement along a relation.**  Suppose that in related states two machines give the same
answer to an operation just if it is a good one there, and that after the same answer they are
related again.  Then they give the same answers to a sequence just if each of its operations in turn
is a good one. -/
theorem results_rel_iff {f : σ → op → result × σ} {g : τ → op → result × τ} {R : σ → τ → Prop}
    {good : τ → op → Prop} (hgood : ∀ s t o, R s t → ((f s o).1 = (g t o).1 ↔ good t o))
    (hkeep : ∀ s t o, R s t → (f s o).1 = (g t o).1 → R (f s o).2 (g t o).2) {s : σ} {t : τ}
    (h : R s t) (ops : List op) :
    results f s ops = results g t ops ↔
      ∀ before o rest, ops = before ++ o :: rest → good (after g t before) o := by
  induction ops generalizing s t with
  | nil =>
      constructor
      · intro _ before o rest h
        simp at h
      · intro _
        rfl
  | cons o ops ih =>
      unfold results
      rw [List.cons.injEq]
      constructor
      · rintro ⟨hfirst, hrest⟩ before o' rest hops
        cases before with
        | nil =>
            cases hops
            exact (hgood s t o h).mp hfirst
        | cons b before =>
            cases hops
            exact (ih (hkeep s t o h hfirst)).mp hrest before o' rest rfl
      · intro hall
        have hfirst := (hgood s t o h).mpr (hall [] o ops rfl)
        refine ⟨hfirst, (ih (hkeep s t o h hfirst)).mpr fun before o' rest hops => ?_⟩
        exact hall (o :: before) o' rest (by rw [hops]; rfl)

end Machine

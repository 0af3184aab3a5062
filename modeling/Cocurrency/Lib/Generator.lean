/-
# Generators

A generator is a function `σ → Resumed α ε σ`: resumed in a state, it yields an item and is
suspended in a new state, or it returns, or it raises.

* `Generator.drain` : the items of a generator that is resumed up to a number of times, and how
  that ends;
* `Generator.drain_of_states` : the items, if its states are known one after the other;
* `Generator.drain_eq` : two generators whose states match have the same items.
-/
import Mathlib.Data.List.Basic

namespace Generator

variable {α ε σ τ : Type*}

/-- What resuming a generator comes to. -/
inductive Resumed (α ε σ : Type*) where
  | yielded (item : α) (next : σ)
  | returned
  | raised (e : ε)

/-- How the reading of a generator ends; `cut` if it is not resumed any more. -/
inductive Ending (ε : Type*) where
  | cut
  | returned
  | raised (e : ε)
  deriving DecidableEq, Repr

/-- Resume a generator up to `fuel` times. -/
def drain (resume : σ → Resumed α ε σ) : ℕ → σ → List α × Ending ε
  | 0, _ => ([], .cut)
  | fuel + 1, s =>
      match resume s with
      | .yielded item next => (item :: (drain resume fuel next).1, (drain resume fuel next).2)
      | .returned => ([], .returned)
      | .raised e => ([], .raised e)

theorem drain_yielded {resume : σ → Resumed α ε σ} {s next : σ} {item : α}
    (h : resume s = .yielded item next) (fuel : ℕ) :
    drain resume (fuel + 1) s =
      (item :: (drain resume fuel next).1, (drain resume fuel next).2) := by
  rw [drain, h]

theorem drain_returned {resume : σ → Resumed α ε σ} {s : σ} (h : resume s = .returned) (fuel : ℕ) :
    drain resume (fuel + 1) s = ([], .returned) := by
  rw [drain, h]

theorem drain_raised {resume : σ → Resumed α ε σ} {s : σ} {e : ε} (h : resume s = .raised e)
    (fuel : ℕ) : drain resume (fuel + 1) s = ([], .raised e) := by
  rw [drain, h]

/-- **Known states.**  A generator that yields in each of `n` states, each leading to the next one,
and returns in the one after them. -/
theorem drain_of_states {resume : σ → Resumed α ε σ} {n : ℕ} (state : ℕ → σ) (item : ℕ → α)
    (hyields : ∀ i < n, resume (state i) = .yielded (item i) (state (i + 1)))
    (hreturns : resume (state n) = .returned) :
    drain resume (n + 1) (state 0) = ((List.range n).map item, .returned) := by
  induction n generalizing state item with
  | zero => exact drain_returned hreturns 0
  | succ n ih =>
      have hrest := ih (fun i => state (i + 1)) (fun i => item (i + 1))
        (fun i hi => hyields (i + 1) (Nat.succ_lt_succ hi)) hreturns
      rw [drain_yielded (hyields 0 (Nat.succ_pos n)), hrest, List.range_succ_eq_map, List.map_cons,
        List.map_map]
      rfl

/-- Two generators come to the same, and what they are suspended in is related. -/
inductive Resumed.Matches (R : σ → τ → Prop) : Resumed α ε σ → Resumed α ε τ → Prop
  | yielded (item : α) {s : σ} {t : τ} : R s t → Matches R (.yielded item s) (.yielded item t)
  | returned : Matches R .returned .returned
  | raised (e : ε) : Matches R (.raised e) (.raised e)

/-- **The simulation rule.** -/
theorem drain_eq {f : σ → Resumed α ε σ} {g : τ → Resumed α ε τ} (R : σ → τ → Prop)
    (hmatches : ∀ s t, R s t → (f s).Matches R (g t)) (fuel : ℕ) {s : σ} {t : τ} (h : R s t) :
    drain f fuel s = drain g fuel t := by
  induction fuel generalizing s t with
  | zero => rfl
  | succ fuel ih =>
      have hone := hmatches s t h
      generalize hf : f s = x at hone
      generalize hg : g t = y at hone
      cases hone with
      | yielded item hnext => rw [drain_yielded hf, drain_yielded hg, ih hnext]
      | returned => rw [drain_returned hf, drain_returned hg]
      | raised e => rw [drain_raised hf, drain_raised hg]

end Generator

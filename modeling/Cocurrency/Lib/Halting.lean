/-
# Halting

A system halts from a state if it has no infinite run from there.

* `halts_of_measure` : it does if every step keeps an invariant and lowers a measure;
* `Halts.of_simulation` : a system halts if an abstract one does, and what the abstract one does not
  see lowers a measure.
-/
import Cocurrency.Lib.Run
import Mathlib.Data.Nat.Notation

variable {σ α ε : Type*}

/-- `s'` follows `s`. -/
def Follows (step : σ → α → Option (ε × σ)) (s' s : σ) : Prop := ∃ a e, step s a = some (e, s')

/-- No run goes on for ever from `s`. -/
def Halts (step : σ → α → Option (ε × σ)) (s : σ) : Prop := Acc (Follows step) s

/-- **Halting by a measure.** -/
theorem halts_of_measure {step : σ → α → Option (ε × σ)} (I : σ → Prop) (μ : σ → ℕ)
    (lowers : ∀ s a e s', I s → step s a = some (e, s') → I s' ∧ μ s' < μ s) {s : σ} (hI : I s) :
    Halts step s := by
  induction hμ : μ s using Nat.strongRecOn generalizing s with
  | _ n ih =>
      constructor
      rintro s' ⟨a, e, hs⟩
      obtain ⟨hI', hlt⟩ := lowers s a e s' hI hs
      exact ih (μ s') (hμ ▸ hlt) hI' rfl

namespace Halts

variable {step : σ → α → Option (ε × σ)} {s : σ}

/-- Fewer steps halt as well. -/
theorem restrict (h : Halts step s) (ok : σ → α → Prop) [∀ s a, Decidable (ok s a)] :
    Halts (guarded step ok) s := by
  refine Subrelation.accessible (fun {s' s} hfollows => ?_) h
  obtain ⟨a, e, hs⟩ := hfollows
  rw [guarded] at hs
  split at hs
  · exact ⟨a, e, hs⟩
  · cases hs

variable {τ β ο : Type*} {astep : τ → β → Option (ο × τ)}

/-- **Halting of what simulates.** -/
theorem of_simulation (R : σ → τ → Prop) (μ : σ → τ → ℕ)
    (answers : ∀ s t a e s', R s t → step s a = some (e, s') →
      (R s' t ∧ μ s' t < μ s t) ∨ ∃ t', Follows astep t' t ∧ R s' t') {t : τ}
    (h : Halts astep t) (hR : R s t) : Halts step s := by
  induction h generalizing s with
  | intro t _ ih =>
      -- the abstract system stays in `t` while the measure goes down
      induction hμ : μ s t using Nat.strongRecOn generalizing s with
      | _ n ihμ =>
          constructor
          rintro s' ⟨a, e, hs⟩
          rcases answers s t a e s' hR hs with ⟨hR', hlt⟩ | ⟨t', hfollows, hR'⟩
          · exact ihμ (μ s' t) (hμ ▸ hlt) hR' rfl
          · exact ih t' hfollows hR'

end Halts

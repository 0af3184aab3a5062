/-
# Families of systems

Many systems of one kind side by side; a step is a step of one of them.

* `familyStep` : the system of them all;
* `Run.component` : a run of it is a run of each;
* `halts_of_components` : finitely many components of a state, each of which can be replaced by
  smaller ones only so often, are not replaced for ever.
-/
import Cocurrency.Lib.Halting
import Mathlib.Data.DFinsupp.WellFounded
import Mathlib.Logic.Function.Basic
import Mathlib.SetTheory.Cardinal.Order

variable {κ σ α ε : Type*} [DecidableEq κ]

/-- A step of the system `c` by the choice `a`. -/
def familyStep (step : σ → α → Option (ε × σ)) (s : κ → σ) (a : κ × α) :
    Option ((κ × ε) × (κ → σ)) :=
  match step (s a.1) a.2 with
  | none => none
  | some (e, s') => some ((a.1, e), Function.update s a.1 s')

/-- The events of the system `c`. -/
def eventsOf (c : κ) (h : List (κ × ε)) : List ε :=
  h.filterMap fun e => if e.1 = c then some e.2 else none

theorem familyStep_eq_some {step : σ → α → Option (ε × σ)} {s s' : κ → σ} {c : κ} {a : α}
    {e : κ × ε} (h : familyStep step s (c, a) = some (e, s')) :
    ∃ e₁ s₁, step (s c) a = some (e₁, s₁) ∧ e = (c, e₁) ∧ s' = Function.update s c s₁ := by
  rw [familyStep] at h
  split at h
  · cases h
  · next e₁ s₁ hs =>
    cases h
    exact ⟨e₁, s₁, hs, rfl, rfl⟩

theorem eventsOf_snoc_self (c : κ) (h : List (κ × ε)) (e : ε) :
    eventsOf c (h ++ [(c, e)]) = eventsOf c h ++ [e] := by
  simp [eventsOf]

theorem eventsOf_snoc_of_ne {c d : κ} (hne : c ≠ d) (h : List (κ × ε)) (e : ε) :
    eventsOf d (h ++ [(c, e)]) = eventsOf d h := by
  simp [eventsOf, hne]

/-- **A run of the family is a run of each system.** -/
theorem Run.component {step : σ → α → Option (ε × σ)} {s₀ s : κ → σ} {h : List (κ × ε)}
    (hr : Run (familyStep step) anyStep s₀ h s) (c : κ) :
    Run step anyStep (s₀ c) (eventsOf c h) (s c) := by
  induction hr with
  | nil => exact .nil
  | @snoc h s s' a e _ _ hs ih =>
      obtain ⟨d, a⟩ := a
      obtain ⟨e₁, s₁, hs₁, rfl, rfl⟩ := familyStep_eq_some hs
      by_cases hd : d = c
      · subst hd
        rw [eventsOf_snoc_self, Function.update_self]
        exact ih.snoc trivial hs₁
      · rw [eventsOf_snoc_of_ne hd, Function.update_of_ne (Ne.symm hd)]
        exact ih

/-- **Halting, component by component.** -/
theorem halts_of_components {σ α ε ι β : Type*} [Finite ι] {step : σ → α → Option (ε × σ)}
    {smaller : β → β → Prop} (hwf : WellFounded smaller) (component : σ → ι → β)
    (lowers : ∀ s a e s', step s a = some (e, s') → ∃ i, smaller (component s' i) (component s i) ∧
      ∀ j, j ≠ i → component s' j = component s j) (s : σ) : Halts step s := by
  have hlex : WellFounded (Pi.Lex (β := fun _ : ι => β) WellOrderingRel fun {_} => smaller) :=
    Pi.Lex.wellFounded _ fun _ => hwf
  refine Subrelation.accessible (fun {s' s} hfollows => ?_) ((InvImage.wf component hlex).apply s)
  obtain ⟨a, e, hs⟩ := hfollows
  obtain ⟨i, hlt, hothers⟩ := lowers s a e s' hs
  refine ⟨i, fun j hj => hothers j ?_, hlt⟩
  rintro rfl
  exact irrefl j hj

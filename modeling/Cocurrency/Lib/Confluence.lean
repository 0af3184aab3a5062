/-
# Confluence

In a system whose steps commute the order of the steps does not matter: one run that cannot go on
tells what all runs do.

* `Commutes` : steps by different choices can be taken in either order;
* `Run.completes` : every run can be continued to the end of a given one;
* `Run.unique_end`, `Run.halts` : a run that cannot go on ends there, and every run ends.
-/
import Cocurrency.Lib.Halting

variable {σ α ε ο : Type*}

/-- Steps by different choices can be taken in either order. -/
def Commutes (step : σ → α → Option (ε × σ)) : Prop :=
  ∀ ⦃s a b e₁ s₁ e₂ s₂⦄, a ≠ b → step s a = some (e₁, s₁) → step s b = some (e₂, s₂) →
    ∃ s', step s₁ b = some (e₂, s') ∧ step s₂ a = some (e₁, s')

/-- Of two steps that can be exchanged one is not observed. -/
def SeesOne (step : σ → α → Option (ε × σ)) (obs : ε → Option ο) : Prop :=
  ∀ ⦃s a b e₁ s₁ e₂ s₂⦄, a ≠ b → step s a = some (e₁, s₁) → step s b = some (e₂, s₂) →
    obs e₁ = none ∨ obs e₂ = none

/-- Nothing is observed. -/
theorem seesOne_none (step : σ → α → Option (ε × σ)) :
    SeesOne step fun _ => (none : Option Unit) := fun _ _ _ _ _ _ _ _ _ _ => Or.inl rfl

namespace Run

variable {step : σ → α → Option (ε × σ)} {obs : ε → Option ο} {s s' t : σ} {h h' : List ε}

/-- Any step of the first state can be made the first one of a run to the end. -/
theorem strip (hc : Commutes step) (hobs : SeesOne step obs) (hr : Run step anyStep s h t)
    (hend : ∀ a, step t a = none) {a : α} {e : ε} {s₁ : σ} (ha : step s a = some (e, s₁)) :
    ∃ h₁, Run step anyStep s₁ h₁ t ∧ h.length = h₁.length + 1 ∧
      h.filterMap obs = (e :: h₁).filterMap obs := by
  induction h generalizing s a e s₁ with
  | nil =>
      generalize hnil : ([] : List ε) = h at hr
      cases hr with
      | nil =>
          rw [hend a] at ha
          cases ha
      | snoc _ _ _ => simp at hnil
  | cons e' h' ih =>
      obtain ⟨b, s₂, hb, hrest⟩ := hr.first_step
      by_cases hab : a = b
      · subst hab
        rw [ha] at hb
        cases hb
        exact ⟨h', hrest, rfl, rfl⟩
      · -- the two steps are exchanged
        obtain ⟨s₃, hb', ha'⟩ := hc hab ha hb
        obtain ⟨h₁, hr₁, hlen, hseen⟩ := ih hrest ha'
        have hfirst : Run step anyStep s₁ [e'] s₃ := Run.nil.snoc trivial hb'
        refine ⟨e' :: h₁, hfirst.trans hr₁, by simp [hlen], ?_⟩
        simp only [List.filterMap_cons] at hseen ⊢
        rw [hseen]
        rcases hobs hab ha hb with hnone | hnone
        · simp only [hnone]
        · simp only [hnone]

/-- **Every run can be continued to the end of a given one.** -/
theorem completes (hc : Commutes step) (hobs : SeesOne step obs)
    (hr : Run step anyStep s h t) (hend : ∀ a, step t a = none)
    (hr' : Run step anyStep s h' s') :
    ∃ rest, Run step anyStep s' rest t ∧ h.length = h'.length + rest.length ∧
      h.filterMap obs = (h' ++ rest).filterMap obs := by
  induction hr' with
  | nil => exact ⟨h, hr, (Nat.zero_add _).symm, rfl⟩
  | @snoc h' s' s'' a e _ _ hs ih =>
      obtain ⟨rest, hrest, hlen, hseen⟩ := ih
      obtain ⟨rest', hrest', hlen', hseen'⟩ := hrest.strip hc hobs hend hs
      refine ⟨rest', hrest', ?_, ?_⟩
      · rw [hlen, hlen', List.length_append, List.length_singleton]
        omega
      · rw [hseen, List.filterMap_append, hseen', ← List.filterMap_append, List.append_assoc]
        rfl

/-- **All runs that cannot go on end in the same state**, after as many steps, with the same
observations. -/
theorem unique_end (hc : Commutes step) (hobs : SeesOne step obs)
    (hr : Run step anyStep s h t) (hend : ∀ a, step t a = none)
    (hr' : Run step anyStep s h' s') (hend' : ∀ a, step s' a = none) :
    s' = t ∧ h'.length = h.length ∧ h'.filterMap obs = h.filterMap obs := by
  obtain ⟨rest, hrest, hlen, hseen⟩ := hr.completes hc hobs hend hr'
  cases rest with
  | nil =>
      generalize hnil : ([] : List ε) = h₁ at hrest
      cases hrest with
      | nil =>
          rw [List.append_nil] at hseen
          exact ⟨rfl, hlen.symm, hseen.symm⟩
      | snoc _ _ _ => simp at hnil
  | cons e rest =>
      obtain ⟨a, s₁, ha, -⟩ := hrest.first_step
      rw [hend' a] at ha
      cases ha

/-- **If one run ends, all do.** -/
theorem halts (hc : Commutes step) (hr : Run step anyStep s h t) (hend : ∀ a, step t a = none) :
    Halts step s := by
  have hobs := seesOne_none step
  induction hn : h.length generalizing s h with
  | zero =>
      constructor
      rintro s' ⟨a, e, ha⟩
      obtain ⟨h₁, -, hlen, -⟩ := hr.strip hc hobs hend ha
      rw [hn] at hlen
      cases hlen
  | succ n ih =>
      constructor
      rintro s' ⟨a, e, ha⟩
      obtain ⟨h₁, hr₁, hlen, -⟩ := hr.strip hc hobs hend ha
      exact ih hr₁ (Nat.succ.inj (hlen ▸ hn).symm).symm

end Run

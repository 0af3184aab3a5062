/-
# Waiting for locks

`holder l` is who holds the lock `l`, and `wants t` the lock that `t` waits for.  If locks have
ranks and everybody who waits holds only locks of lower rank than the one that is waited for, then

* `not_transGen_waitsFor` : no cycle of parties wait for each other;
* `exists_holder_not_waiting` : if some lock is held, and not infinitely many are, then somebody
  who holds a lock does not wait for another that is held;
* `Holds.update` : holders and held locks still agree when a lock changes hands;
* `all_done` : so if everybody waits for somebody or is done and holds nothing, then all are done.
-/
import Mathlib.Data.Set.Finite.Lattice
import Mathlib.Data.Set.Finite.Lemmas
import Mathlib.Data.Set.Finite.List
import Mathlib.Logic.Function.Basic
import Mathlib.Logic.Relation

namespace WaitFor

variable {τ ℓ κ : Type*} (holder : ℓ → Option τ) (wants : τ → Option ℓ)

/-- `t` waits for a lock that `u` holds. -/
def WaitsFor (t u : τ) : Prop := ∃ l, wants t = some l ∧ holder l = some u

variable (rank : ℓ → κ)

/-- What is held ranks below what is waited for. -/
def Ordered [LT κ] : Prop :=
  ∀ t l m, wants t = some l → holder m = some t → rank m < rank l

variable {holder wants rank}

/-- Along a chain of waiting parties the ranks of the locks that they want go up. -/
theorem rank_lt_of_transGen [Preorder κ] (hord : Ordered holder wants rank) {t u : τ}
    (hwait : Relation.TransGen (WaitsFor holder wants) t u) {l m : ℓ} (hl : wants t = some l)
    (hm : wants u = some m) : rank l < rank m := by
  induction hwait generalizing m with
  | single h =>
      obtain ⟨l', hl', hheld⟩ := h
      rw [hl, Option.some.injEq] at hl'
      rw [hl']
      exact hord _ _ _ hm hheld
  | tail _ h ih =>
      obtain ⟨l', hl', hheld⟩ := h
      exact lt_trans (ih hl') (hord _ _ _ hm hheld)

theorem not_transGen_waitsFor [Preorder κ] (hord : Ordered holder wants rank) (t : τ) :
    ¬ Relation.TransGen (WaitsFor holder wants) t t := by
  intro hcycle
  obtain ⟨u, ⟨l, hl, -⟩, -⟩ := Relation.TransGen.head'_iff.mp hcycle
  exact lt_irrefl _ (rank_lt_of_transGen hord hcycle hl hl)

theorem exists_holder_not_waiting [LinearOrder κ] (hord : Ordered holder wants rank)
    (hfin : {l | holder l ≠ none}.Finite) {l : ℓ} {t : τ} (hl : holder l = some t) :
    ∃ m u, holder m = some u ∧ ∀ v, ¬ WaitsFor holder wants u v := by
  -- who holds the lock of highest rank
  obtain ⟨m, hm, hmax⟩ := Set.exists_max_image {l | holder l ≠ none} rank hfin
    ⟨l, by rw [Set.mem_ofPred_eq, hl]; exact Option.some_ne_none t⟩
  obtain ⟨u, hu⟩ := Option.ne_none_iff_exists'.mp hm
  refine ⟨m, u, hu, ?_⟩
  rintro v ⟨n, hn, hv⟩
  have hle := hmax n (by rw [Set.mem_ofPred_eq, hv]; exact Option.some_ne_none v)
  exact absurd hle (not_le_of_gt (hord u n m hn hu))

theorem all_done [LinearOrder κ] (hord : Ordered holder wants rank)
    (hfin : {l | holder l ≠ none}.Finite) {done : τ → Prop}
    (hdone : ∀ l t, holder l = some t → ¬ done t)
    (hwait : ∀ t, done t ∨ ∃ u, WaitsFor holder wants t u) (t : τ) : done t := by
  by_contra hnot
  obtain ⟨u, l, -, hl⟩ := (hwait t).resolve_left hnot
  -- who holds the lock of highest rank does not wait
  obtain ⟨m, v, hm, hfree⟩ := exists_holder_not_waiting hord hfin hl
  obtain ⟨w, hw⟩ := (hwait v).resolve_left (hdone m v hm)
  exact hfree w hw

/-! ## Holders and what they hold -/

/-- The holder of a lock is who has it among the locks held. -/
def Holds (holder : ℓ → Option τ) (held : τ → List ℓ) : Prop :=
  ∀ l t, holder l = some t ↔ l ∈ held t

variable {held held' : τ → List ℓ}

/-- A lock goes to `t`, or comes back from it. -/
theorem Holds.update [DecidableEq ℓ] (h : Holds holder held) {t : τ} {l : ℓ} {who : Option τ}
    (hself : ∀ m, m ∈ held' t ↔ (m ≠ l ∧ m ∈ held t) ∨ (m = l ∧ who = some t))
    (hothers : ∀ u, u ≠ t → held' u = held u)
    (hfree : ∀ u, u ≠ t → who ≠ some u ∧ l ∉ held u) :
    Holds (Function.update holder l who) held' := by
  intro m u
  by_cases hu : u = t
  · subst hu
    rw [hself]
    by_cases hm : m = l
    · subst hm
      simp
    · rw [Function.update_of_ne hm, h]
      simp [hm]
  · rw [hothers u hu]
    by_cases hm : m = l
    · subst hm
      rw [Function.update_self]
      exact iff_of_false (hfree u hu).1 (hfree u hu).2
    · rw [Function.update_of_ne hm]
      exact h m u

theorem Holds.finite [Finite τ] (h : Holds holder held) : {l | holder l ≠ none}.Finite := by
  have hfin : (⋃ t, {l | l ∈ held t}).Finite := Set.finite_iUnion fun t => List.finite_toSet _
  apply hfin.subset
  intro l hl
  obtain ⟨t, ht⟩ := Option.ne_none_iff_exists'.mp hl
  exact Set.mem_iUnion.mpr ⟨t, (h l t).mp ht⟩

end WaitFor

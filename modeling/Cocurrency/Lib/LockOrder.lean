/-
# Locks in nested blocks

Threads that acquire locks one after the other and release them in the opposite order, as nested
blocks do.

* `returned_of_ordered` : if all threads acquire their locks in an order that they share, then where
  nobody can go on everybody has returned;
* `exists_cycle` : in any case, where nobody can go on and somebody has not returned, some of them
  wait for each other in a cycle;
* `halts` : no run goes on for ever.
-/
import Cocurrency.Lib.Halting
import Cocurrency.Lib.MonitorHalts
import Cocurrency.Lib.WaitFor
import Mathlib.Data.Fintype.Card
import Mathlib.Order.WellFounded
import Mathlib.Data.List.Nodup

namespace LockOrder

/-- Where a thread is. -/
inductive Phase (ℓ : Type*) where
  /-- The locks that are held, the last one first, and those that are still to be acquired. -/
  | acquiring (held toLock : List ℓ)
  | releasing (held : List ℓ)

/-- Who has which lock, and where the threads are. -/
structure State (τ ℓ : Type*) where
  holder : ℓ → Option τ
  phase : τ → Phase ℓ

/-- What a step shows. -/
inductive Event (τ ℓ : Type*) where
  | acquired (t : τ) (l : ℓ)
  /-- What the innermost block does. -/
  | worked (t : τ)
  | released (t : τ) (l : ℓ)
  deriving DecidableEq

variable {τ ℓ : Type*}

/-- The locks that a thread has. -/
def Phase.held : Phase ℓ → List ℓ
  | .acquiring held _ => held
  | .releasing held => held

/-- The lock that a thread acquires next. -/
def Phase.wants : Phase ℓ → Option ℓ
  | .acquiring _ (l :: _) => some l
  | _ => none

/-- At first no lock is held. -/
def start (locks : τ → List ℓ) : State τ ℓ := ⟨fun _ => none, fun t => .acquiring [] (locks t)⟩

variable [DecidableEq τ] [DecidableEq ℓ]

/-- A lock changes hands, and its thread goes on. -/
def State.set (s : State τ ℓ) (l : ℓ) (who : Option τ) (t : τ) (phase : Phase ℓ) : State τ ℓ :=
  ⟨Function.update s.holder l who, Function.update s.phase t phase⟩

/-- The next step of thread `t`, unless it has returned or waits. -/
def step (s : State τ ℓ) (t : τ) : Option (Event τ ℓ × State τ ℓ) :=
  match s.phase t with
  | .acquiring held (l :: toLock) =>
      match s.holder l with
      | none => some (.acquired t l, s.set l (some t) t (.acquiring (l :: held) toLock))
      | some _ => none
  | .acquiring held [] =>
      some (.worked t, { s with phase := Function.update s.phase t (.releasing held) })
  | .releasing (l :: held) => some (.released t l, s.set l none t (.releasing held))
  | .releasing [] => none

/-- What a step of thread `t` does. -/
inductive Effect (s : State τ ℓ) (t : τ) : Event τ ℓ → State τ ℓ → Prop
  | acquired (held : List ℓ) (l : ℓ) (toLock : List ℓ) :
      s.phase t = .acquiring held (l :: toLock) → s.holder l = none →
      Effect s t (.acquired t l) (s.set l (some t) t (.acquiring (l :: held) toLock))
  | worked (held : List ℓ) : s.phase t = .acquiring held [] →
      Effect s t (.worked t) { s with phase := Function.update s.phase t (.releasing held) }
  | released (l : ℓ) (held : List ℓ) : s.phase t = .releasing (l :: held) →
      Effect s t (.released t l) (s.set l none t (.releasing held))

variable {s s' : State τ ℓ} {t : τ} {e : Event τ ℓ} {locks : τ → List ℓ}

/-- What a step does. -/
theorem effect_step (hs : step s t = some (e, s')) : Effect s t e s' := by
  unfold step at hs
  split at hs
  · next held l toLock hphase =>
    split at hs
    · next hfree =>
      cases hs
      exact .acquired held l toLock hphase hfree
    · cases hs
  · next held hphase =>
    cases hs
    exact .worked held hphase
  · next l held hphase =>
    cases hs
    exact .released l held hphase
  · cases hs

/-- A thread cannot go on if it has returned or waits for a lock that is held. -/
theorem stuck_cases (hstuck : step s t = none) :
    s.phase t = .releasing [] ∨ ∃ l u, (s.phase t).wants = some l ∧ s.holder l = some u := by
  unfold step at hstuck
  split at hstuck
  · next held l toLock hphase =>
    split at hstuck
    · cases hstuck
    · next u hholder => exact Or.inr ⟨l, u, by rw [hphase, Phase.wants], hholder⟩
  · cases hstuck
  · cases hstuck
  · next hphase => exact Or.inl hphase

/-! ## Who holds what -/

/-- What is held, with what is still to be acquired. -/
def Phase.Within (locks : List ℓ) : Phase ℓ → Prop
  | .acquiring held toLock => held.reverse ++ toLock = locks
  | .releasing held => held.reverse <+: locks

/-- The holders are right, and every thread is within its list of locks. -/
structure Ok (locks : τ → List ℓ) (s : State τ ℓ) : Prop where
  holder_iff : ∀ l t, s.holder l = some t ↔ l ∈ (s.phase t).held
  within : ∀ t, (s.phase t).Within (locks t)

omit [DecidableEq τ] [DecidableEq ℓ] in
/-- At the start no lock is held. -/
theorem Ok.start (locks : τ → List ℓ) : Ok locks (start locks) :=
  ⟨fun _ _ => iff_of_false nofun List.not_mem_nil, fun _ => rfl⟩

omit [DecidableEq ℓ] in
/-- The thread that goes on is within its list. -/
theorem within_update {phase : Phase ℓ} (hok : Ok locks s) (h : phase.Within (locks t)) (u : τ) :
    (Function.update s.phase t phase u).Within (locks u) :=
  (Function.forall_update_iff s.phase fun u phase => phase.Within (locks u)).mpr
    ⟨h, fun u _ => hok.within u⟩ u

/-- A lock goes to `t`, or comes back from it. -/
theorem Ok.set (hok : Ok locks s) {l : ℓ} {who : Option τ} {phase : Phase ℓ}
    (hwithin : phase.Within (locks t))
    (hself : ∀ m, m ∈ phase.held ↔ (m ≠ l ∧ m ∈ (s.phase t).held) ∨ (m = l ∧ who = some t))
    (hother : ∀ u, u ≠ t → who ≠ some u ∧ l ∉ (s.phase u).held) :
    Ok locks (s.set l who t phase) := by
  refine ⟨WaitFor.Holds.update hok.holder_iff (fun m => ?_) (fun u hu => ?_) hother,
    within_update hok hwithin⟩
  · show m ∈ (Function.update s.phase t phase t).held ↔ _
    rw [Function.update_self]
    exact hself m
  · show (Function.update s.phase t phase u).held = _
    rw [Function.update_of_ne hu]

/-- **The step lemma**. -/
theorem Ok.step (hnodup : ∀ t, (locks t).Nodup) (hok : Ok locks s)
    (hs : step s t = some (e, s')) : Ok locks s' := by
  have hwithin := hok.within t
  cases effect_step hs with
  | acquired held l toLock hphase hfree =>
      have hnot : ∀ u, l ∉ (s.phase u).held := by
        intro u hl
        rw [(hok.holder_iff l u).mpr hl] at hfree
        cases hfree
      rw [hphase] at hwithin
      refine hok.set ?_ (fun m => ?_) fun u hu => ⟨?_, hnot u⟩
      · show (l :: held).reverse ++ toLock = locks t
        rw [List.reverse_cons, List.append_assoc]
        exact hwithin
      · have hl := hnot t
        rw [hphase] at hl ⊢
        simp only [Phase.held, List.mem_cons] at hl ⊢
        by_cases hm : m = l
        · subst hm
          simp
        · simp [hm]
      · simpa using Ne.symm hu
  | worked held hphase =>
      rw [hphase] at hwithin
      refine ⟨fun m u => ?_, within_update hok ⟨[], hwithin⟩⟩
      show s.holder m = some u ↔ m ∈ (Function.update s.phase t (.releasing held) u).held
      rw [hok.holder_iff]
      by_cases hu : u = t
      · subst hu
        rw [Function.update_self, hphase]
        exact Iff.rfl
      · rw [Function.update_of_ne hu]
  | released l held hphase =>
      rw [hphase] at hwithin
      have hwithin : (l :: held).reverse <+: locks t := hwithin
      have hheld : (l :: held).Nodup :=
        List.nodup_reverse.mp ((hnodup t).sublist hwithin.sublist)
      obtain ⟨hl, -⟩ := List.nodup_cons.mp hheld
      refine hok.set ?_ (fun m => ?_) fun u hu => ⟨nofun, fun hmem => ?_⟩
      · rw [List.reverse_cons] at hwithin
        exact (List.prefix_append _ _).trans hwithin
      · rw [hphase]
        simp only [Phase.held, List.mem_cons]
        by_cases hm : m = l
        · subst hm
          simpa using hl
        · simp [hm]
      · -- `t` holds it
        have hheld : s.holder l = some t := by
          rw [hok.holder_iff, hphase]
          exact List.mem_cons_self
        rw [(hok.holder_iff l u).mpr hmem] at hheld
        exact hu (Option.some.inj hheld)

/-! ## What has been acquired -/

/-- The lock that thread `t` acquires. -/
def Event.acquiredBy (t : τ) : Event τ ℓ → Option ℓ
  | .acquired u l => if u = t then some l else none
  | _ => none

/-- The locks that `t` has acquired. -/
def acquiredBy (t : τ) (h : List (Event τ ℓ)) : List ℓ := h.filterMap (Event.acquiredBy t)

/-- What a thread has acquired at a point. -/
def Phase.acquired (locks : List ℓ) : Phase ℓ → List ℓ
  | .acquiring held _ => held.reverse
  | .releasing _ => locks

omit [DecidableEq τ] [DecidableEq ℓ] in
/-- The locks are acquired in the order of the list. -/
theorem Ok.acquired_le (hok : Ok locks s) (t : τ) : (s.phase t).acquired (locks t) <+: locks t := by
  have hwithin := hok.within t
  generalize s.phase t = phase at hwithin ⊢
  cases phase with
  | acquiring held toLock => exact ⟨toLock, hwithin⟩
  | releasing held => exact List.prefix_refl _

/-- What has been acquired, in every run. -/
theorem acquiredBy_run {h : List (Event τ ℓ)} (hnodup : ∀ t, (locks t).Nodup)
    (hr : Run LockOrder.step anyStep (LockOrder.start locks) h s) :
    Ok locks s ∧ ∀ t, acquiredBy t h = (s.phase t).acquired (locks t) := by
  refine hr.invariant
    (fun h s => Ok locks s ∧ ∀ t, acquiredBy t h = (s.phase t).acquired (locks t))
    ⟨Ok.start locks, fun _ => rfl⟩ ?_
  rintro h s t e s' ⟨hok, hacquired⟩ _ hs
  refine ⟨hok.step hnodup hs, fun u => ?_⟩
  have hold := hacquired u
  rw [acquiredBy] at hold
  rw [acquiredBy, List.filterMap_append, hold]
  have hwithin := hok.within t
  cases effect_step hs with
  | acquired held l toLock hphase hfree =>
      show _ = (Function.update s.phase t _ u).acquired (locks u)
      by_cases hu : u = t
      · subst hu
        rw [Function.update_self, hphase]
        simp [Phase.acquired, Event.acquiredBy]
      · rw [Function.update_of_ne hu]
        simp [Event.acquiredBy, Ne.symm hu]
  | worked held hphase =>
      show _ = (Function.update s.phase t _ u).acquired (locks u)
      by_cases hu : u = t
      · subst hu
        rw [hphase] at hwithin
        rw [Function.update_self, hphase]
        exact hwithin
      · rw [Function.update_of_ne hu]
        exact List.append_nil _
  | released l held hphase =>
      show _ = (Function.update s.phase t _ u).acquired (locks u)
      by_cases hu : u = t
      · subst hu
        rw [Function.update_self, hphase]
        exact List.append_nil _
      · rw [Function.update_of_ne hu]
        exact List.append_nil _

/-! ## Every run comes to an end -/

/-- The number of steps that are to come. -/
def Phase.toDo : Phase ℓ → ℕ
  | .acquiring held toLock => held.length + 2 * toLock.length + 1
  | .releasing held => held.length

/-- A step leaves less to be done. -/
theorem toDo_step (hs : step s t = some (e, s')) :
    ∃ phase, s'.phase = Function.update s.phase t phase ∧ phase.toDo < (s.phase t).toDo := by
  cases effect_step hs with
  | acquired held l toLock hphase hfree =>
      refine ⟨_, rfl, ?_⟩
      rw [hphase]
      simp only [Phase.toDo, List.length_cons]
      omega
  | worked held hphase =>
      refine ⟨_, rfl, ?_⟩
      rw [hphase]
      exact Nat.lt_succ_self _
  | released l held hphase =>
      refine ⟨_, rfl, ?_⟩
      rw [hphase]
      exact Nat.lt_succ_self _

/-- Every run comes to an end. -/
theorem halts [Fintype τ] (s : State τ ℓ) : Halts LockOrder.step s := by
  apply halts_of_measure (fun _ => True) (fun s => ∑ t, (s.phase t).toDo) _ trivial
  intro s t e s' _ hs
  obtain ⟨phase, hphase, hlt⟩ := toDo_step hs
  have hsum := Monitor.sum_update_add Phase.toDo s.phase t phase
  refine ⟨trivial, ?_⟩
  rw [hphase]
  omega

/-! ## Where nobody can go on -/

/-- `t` waits for a lock that `u` holds. -/
def WaitsFor (s : State τ ℓ) : τ → τ → Prop :=
  WaitFor.WaitsFor s.holder fun t => (s.phase t).wants

/-- Everybody has returned. -/
def Returned (s : State τ ℓ) : Prop := ∀ t, s.phase t = .releasing []

omit [DecidableEq τ] [DecidableEq ℓ] in
/-- Who has a lock has not returned. -/
theorem Ok.not_returned (hok : Ok locks s) {l : ℓ} (hheld : s.holder l = some t) :
    s.phase t ≠ .releasing [] := by
  intro hphase
  have hmem := (hok.holder_iff l t).mp hheld
  rw [hphase] at hmem
  cases hmem

omit [DecidableEq τ] [DecidableEq ℓ] in
/-- In an order that all threads share, what is held ranks below what is waited for. -/
theorem Ok.ordered {κ : Type*} [LT κ] {rank : ℓ → κ}
    (hsorted : ∀ t, (locks t).Pairwise fun l m => rank l < rank m) (hok : Ok locks s) :
    WaitFor.Ordered s.holder (fun t => (s.phase t).wants) rank := by
  intro t l m hwants hheld
  have hwants : (s.phase t).wants = some l := hwants
  have hmem := (hok.holder_iff m t).mp hheld
  have hwithin := hok.within t
  generalize s.phase t = phase at hwants hmem hwithin
  cases phase with
  | acquiring held toLock =>
      cases toLock with
      | nil => cases hwants
      | cons first toLock =>
          cases hwants
          have hall := hsorted t
          rw [← show held.reverse ++ l :: toLock = locks t from hwithin] at hall
          exact (List.pairwise_append.mp hall).2.2 m (List.mem_reverse.mpr hmem) l
            List.mem_cons_self
  | releasing held => cases hwants

/-- **An order for all locks.** -/
theorem returned_of_ordered [Finite τ] {κ : Type*} [LinearOrder κ] {rank : ℓ → κ}
    (hsorted : ∀ t, (locks t).Pairwise fun l m => rank l < rank m) (hok : Ok locks s)
    (hstuck : ∀ t, LockOrder.step s t = none) : Returned s := by
  refine WaitFor.all_done (hok.ordered hsorted) (WaitFor.Holds.finite hok.holder_iff)
    (fun l t => hok.not_returned) fun t => ?_
  rcases stuck_cases (hstuck t) with hreturned | ⟨l, u, hwants, hheld⟩
  · exact Or.inl hreturned
  · exact Or.inr ⟨u, l, hwants, hheld⟩

/-- **A cycle.** -/
theorem exists_cycle [Finite τ] (hok : Ok locks s) (hstuck : ∀ t, LockOrder.step s t = none)
    (hnot : ¬ Returned s) : ∃ t, Relation.TransGen (WaitsFor s) t t := by
  by_contra hno
  have hwf : WellFounded fun t u => Relation.TransGen (WaitsFor s) u t := by
    have hirrefl : Std.Irrefl fun t u => Relation.TransGen (WaitsFor s) u t :=
      ⟨fun t ht => hno ⟨t, ht⟩⟩
    have htrans : IsTrans τ fun t u => Relation.TransGen (WaitsFor s) u t :=
      ⟨fun _ _ _ h₁ h₂ => h₂.trans h₁⟩
    exact Finite.wellFounded_of_trans_of_irrefl _
  obtain ⟨t₀, ht₀⟩ := not_forall.mp hnot
  obtain ⟨t, ht, hmin⟩ := hwf.has_min {t | s.phase t ≠ .releasing []} ⟨t₀, ht₀⟩
  obtain ⟨l, u, hwants, hheld⟩ := (stuck_cases (hstuck t)).resolve_left ht
  exact hmin u (hok.not_returned hheld) (.single ⟨l, hwants, hheld⟩)

end LockOrder
